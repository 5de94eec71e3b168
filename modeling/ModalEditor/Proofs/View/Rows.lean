import Mathlib.Data.List.Nodup
import ModalEditor.Proofs.Text.Neighbours
import ModalEditor.Proofs.View.Tiling
import ModalEditor.View.Window

/-!
# The rows of the window

The window moves to the nearest place that shows the cursor's line (`Window.follow_nearest`), and holds
one row for each line that fits, from the first one shown on (`Window.render_rows`). A row shows the
number of its line and the line's text (`Window.row_runs`). Among all the runs of text of the tree
exactly one looks like a caret, and it is in the row of the cursor's line (`Window.count_row`,
`Window.count_render`).
-/

namespace ModalEditor

/-! ## Runs of text that look alike -/

namespace Element

variable {props : List (String × PropValue)}

mutual

/-- How many runs of text, at any depth, have these properties. -/
def count (props : List (String × PropValue)) : Element → Nat
  | .literal _ => 0
  | .node tag own children => (if tag = .text ∧ own = props then 1 else 0) + countAll props children

/-- How many runs of text below nodes, at any depth, have these properties. -/
def countAll (props : List (String × PropValue)) : List Element → Nat
  | [] => 0
  | e :: rest => count props e + countAll props rest

end

theorem count_label (own : List (String × PropValue)) (t : Text) :
    (label own t).count props = if own = props then 1 else 0 := by
  have hnone : countAll props (ofText t) = 0 := by
    unfold ofText
    split <;> rfl
  rw [label, count, hnone, Nat.add_zero]
  exact if_congr (and_iff_right rfl) rfl rfl

theorem plainTextAll_ofText (t : Text) : plainTextAll (ofText t) = t := by
  unfold ofText
  split
  · rename_i hempty
    rw [hempty]
    rfl
  · exact List.append_nil t

theorem plainText_label (own : List (String × PropValue)) (t : Text) :
    (label own t).plainText = t := plainTextAll_ofText t

theorem count_box (own : List (String × PropValue)) (children : List Element) :
    (box own children).count props = countAll props children := by
  rw [box, count, if_neg (by rintro ⟨⟨⟩, -⟩), Nat.zero_add]

/-- Drawn things of which each looks so once or not at all. -/
theorem countAll_map {α : Type} (draw : α → Element) (p : α → Bool) {l : List α}
    (h : ∀ a ∈ l, (draw a).count props = if p a then 1 else 0) :
    countAll props (l.map draw) = l.countP p := by
  induction l with
  | nil => rfl
  | cons a l ih =>
    rw [List.map_cons, countAll, h a List.mem_cons_self,
      ih fun b hb => h b (List.mem_cons_of_mem _ hb), List.countP_cons, Nat.add_comm]

end Element

namespace Window

/-! ## Where the window is -/

/-- A window of some height with `top` as its first line shows a line. -/
def Shows (top line height : Int) : Prop := 0 ≤ top ∧ top ≤ line ∧ line < top + height

variable {top cursorLine height : Int}

/-- **Scrolling** shows the cursor's line, and moves the window less than any other place that shows
it would. -/
theorem follow_nearest (h : 0 ≤ top) (hline : 0 ≤ cursorLine) (hlt : cursorLine < Precision.limit)
    (hheight : 1 ≤ height) :
    Shows (follow top cursorLine height) cursorLine height ∧
      ∀ other, Shows other cursorLine height → other ≠ follow top cursorLine height →
        (follow top cursorLine height - top).natAbs < (other - top).natAbs := by
  unfold Shows
  rw [follow_eq height h hline hlt, Int.max_eq_right hheight]
  split
  · exact ⟨by omega, fun other hother hne => by omega⟩
  · split <;> exact ⟨by omega, fun other hother hne => by omega⟩

/-! ## The rows -/

/-- **The rows of the window**, one for each line that fits. -/
theorem render_rows {t : Text} (c : Cursor) (style : CursorStyle) {line : Int}
    (hshows : Shows top line height) (hline : line < t.lineCount) :
    let rows := (render t c top height style).children
    (rows.length : Int) = min (t.lineCount : Int) (top + height) - top ∧
      ∀ i : Nat, i < rows.length → rows[i]? = some (row t c style (top + i)) := by
  obtain ⟨-, hle, hlt⟩ := hshows
  intro rows
  have hrows : rows = (shown t top height).map (row t c style) := rfl
  have hlength : rows.length = (min (t.lineCount : Int) (top + height) - top).toNat := by
    rw [hrows, List.length_map, shown, List.length_map, List.length_range]
  refine ⟨by omega, fun i hi => ?_⟩
  rw [hlength] at hi
  rw [hrows, List.getElem?_map, shown, List.getElem?_map, List.getElem?_range hi]
  rfl

variable {t : Text} {c : Cursor} {style : CursorStyle} {line : Int}

/-- A row as a line with a caret or without one. -/
def lineOf (t : Text) (c : Cursor) (line : Int) : Segment.Line where
  text := t.lineText line
  start := t.lineStart line
  cursor := c
  showCaret := line = (t.lineAt c.position : Int)

theorem segmentsOf_eq (t : Text) (c : Cursor) (line : Int) :
    segmentsOf t c line = Segment.ofLine (lineOf t c line) := rfl

theorem hasCaret_lineOf (hc : c.Inside t) :
    (lineOf t c line).hasCaret = true ↔ line = t.lineAt c.position := by
  rw [Segment.Line.hasCaret_iff]
  refine ⟨fun h => of_decide_eq_true h.1, ?_⟩
  rintro rfl
  have hmem := t.clamp_mem_line c.position
  rw [Text.clamp_of_mem hc.1.1 hc.1.2, Text.lineEnd] at hmem
  refine ⟨decide_eq_true rfl, ?_⟩
  unfold lineOf Segment.Line.column
  dsimp only
  omega

/-- What a run of text that looks like a caret has as its properties. -/
def caretProps : CursorStyle → List (String × PropValue)
  | .block => [("inverse", .flag true)]
  | .bar => [("color", .word "cyan"), ("underline", .flag true)]

theorem count_segment (style : CursorStyle) (s : Segment) :
    (segment style s).count (caretProps style) = if s.kind = .caret then 1 else 0 := by
  obtain ⟨kind, text⟩ := s
  cases kind <;> cases style <;> simp [segment, Element.count_label, caretProps]

/-- What stands in a row behind the number: the segments, or a blank where there are none. -/
theorem count_segments (style : CursorStyle) (segments : List Segment) :
    Element.countAll (caretProps style)
        (if segments.isEmpty then [.literal [space]] else segments.map (segment style)) =
      (Segment.carets segments).length := by
  split
  · rename_i hempty
    rw [List.isEmpty_iff.1 hempty]
    rfl
  · rw [Element.countAll_map (segment style) (fun s => decide (s.kind = .caret)),
      List.countP_eq_length_filter]
    · rfl
    · intro s _
      rw [count_segment]
      simp only [decide_eq_true_eq]

theorem plainTextAll_segments (style : CursorStyle) (segments : List Segment) :
    Element.plainTextAll (segments.map (segment style)) = Segment.drawn segments := by
  induction segments with
  | nil => rfl
  | cons s segments ih =>
    have hs : (segment style s).plainText = s.text := by
      unfold segment
      split <;> exact Element.plainText_label ..
    rw [List.map_cons, Element.plainTextAll, hs, ih]
    rfl

/-- **A row** has a caret exactly if it is the row of the cursor's line. -/
theorem count_row (hc : c.Inside t) :
    (row t c style line).count (caretProps style) =
      if line = t.lineAt c.position then 1 else 0 := by
  have hgutter (color : String) (hcolor : color = "yellow" ∨ color = "gray") :
      [("color", PropValue.word color)] ≠ caretProps style := by
    rcases hcolor with rfl | rfl <;> cases style <;> simp [caretProps]
  have hwrap : [("wrap", PropValue.word "truncate")] ≠ caretProps style := by
    cases style <;> simp [caretProps]
  have hcarets : (Segment.carets (segmentsOf t c line)).length =
      if line = t.lineAt c.position then 1 else 0 := by
    rw [segmentsOf_eq, Segment.carets_ofLine]
    by_cases hline : line = t.lineAt c.position
    · rw [if_pos ((hasCaret_lineOf hc).2 hline), if_pos hline]
      rfl
    · rw [if_neg ((hasCaret_lineOf hc).not.2 hline), if_neg hline]
      rfl
  unfold row
  dsimp only
  rw [Element.count_box, Element.countAll, Element.countAll, Element.countAll,
    Element.count_label, if_neg (hgutter _ (by split <;> simp)), Element.count,
    if_neg fun h => hwrap h.2, count_segments, hcarets]
  omega

/-- **The window** has exactly one caret, if it shows the cursor's line. -/
theorem count_render (hc : c.Inside t) (hshows : Shows top (t.lineAt c.position) height) :
    (render t c top height style).count (caretProps style) = 1 := by
  have hnodup : (shown t top height).Nodup := by
    unfold shown
    exact List.nodup_range.map fun i j h => by omega
  have hmem : (t.lineAt c.position : Int) ∈ shown t top height :=
    mem_shown_iff.2 ⟨hshows.2.1, Int.ofNat_lt.2 (t.lineAt_lt _), hshows.2.2⟩
  rw [render, Element.count_box, Element.countAll_map _ (· == (t.lineAt c.position : Int))]
  · exact List.count_eq_one_of_mem hnodup hmem
  · intro line _
    rw [count_row hc]
    simp only [beq_iff_eq]

/-- **What a row shows**: the number of its line, the line, and a blank if the caret is at the line's
end or nothing else would be there. -/
theorem row_runs (hc : c.Inside t) :
    (row t c style line).runs = [gutter (Text.ofNat t.lineCount).length line,
      t.lineText line ++
        if line = t.lineAt c.position ∧ c.position = t.lineEnd line ∨ t.lineText line = [] then [space]
        else []] := by
  have hend : (lineOf t c line).hasCaret = true ∧
        (lineOf t c line).column = (lineOf t c line).text.length ↔
      line = t.lineAt c.position ∧ c.position = t.lineEnd line := by
    rw [hasCaret_lineOf hc]
    refine and_congr_right fun _ => ?_
    unfold lineOf Segment.Line.column Text.lineEnd
    dsimp only
    omega
  have hdrawn : Segment.drawn (segmentsOf t c line) = t.lineText line ++
      Segment.drawn (Segment.trailing (lineOf t c line)) := Segment.drawn_ofLine _
  have hruns : (row t c style line).runs = [gutter (Text.ofNat t.lineCount).length line,
      if (segmentsOf t c line).isEmpty then [space]
      else Segment.drawn (segmentsOf t c line)] := by
    unfold row
    dsimp only
    rw [Element.box, Element.runs, Element.runsAll, Element.runsAll, Element.runsAll, Element.runs,
      Element.label, Element.runs, Element.plainTextAll_ofText]
    split
    · rfl
    · rw [plainTextAll_segments]
      rfl
  -- no segment is empty, so there are none where nothing is drawn
  have hempty : (segmentsOf t c line).isEmpty = true ↔
      Segment.drawn (segmentsOf t c line) = [] := by
    refine ⟨fun h => by rw [List.isEmpty_iff.1 h]; rfl, fun h => List.isEmpty_iff.2 ?_⟩
    refine List.eq_nil_iff_forall_not_mem.2 fun s hs => ?_
    exact (Segment.tidy_ofLine _).nonempty s hs (List.flatMap_eq_nil_iff.1 h s hs)
  rw [hruns, List.cons_inj_right, List.singleton_inj]
  by_cases hcaret : line = t.lineAt c.position ∧ c.position = t.lineEnd line
  · have hdrawn : Segment.drawn (segmentsOf t c line) = t.lineText line ++ [space] := by
      rw [hdrawn, Segment.trailing, if_pos (hend.2 hcaret)]
      rfl
    rw [if_neg (hempty.not.2 (hdrawn ▸ List.concat_ne_nil _ _)), if_pos (Or.inl hcaret), hdrawn]
  · have hdrawn : Segment.drawn (segmentsOf t c line) = t.lineText line := by
      rw [hdrawn, Segment.trailing, if_neg (hend.not.2 hcaret)]
      exact List.append_nil _
    by_cases htext : t.lineText line = []
    · rw [if_pos (hempty.2 (hdrawn.trans htext)), if_pos (Or.inr htext), htext]
      rfl
    · rw [if_neg (hempty.not.2 (hdrawn ▸ htext)), if_neg (not_or.2 ⟨hcaret, htext⟩), hdrawn,
        List.append_nil]

end Window

end ModalEditor
