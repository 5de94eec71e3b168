import Mathlib.Data.List.Induction
import ModalEditor.Proofs.View.Cuts

/-!
# The segments tile the line

The parts of a line are put together where they are drawn alike. That changes neither what is drawn
and how (`Segment.painted_foldl_push`) nor the carets (`Segment.carets_foldl_push`), and leaves no two
neighbours that could be one (`Segment.tidy_foldl_push`). So the segments, as the parts, draw every
code unit in its own way, and one more blank if the caret is at the end of the line
(`Segment.painted_ofLine`). Main statement: `Segment.ofLine_tiles`.
-/

namespace ModalEditor

namespace Segment

/-- No segment is empty, and no two neighbours are drawn alike, unless as the caret. -/
structure Tidy (segments : List Segment) : Prop where
  nonempty : ∀ s ∈ segments, s.text ≠ []
  apart : segments.IsChain fun s s' => s.kind = s'.kind → s.kind = .caret

/-! ## Putting parts together -/

section
variable {segments : List Segment} {s : Segment}

theorem push_concat (segments : List Segment) (last s : Segment) : push (segments ++ [last]) s =
    if last.kind = s.kind ∧ s.kind ≠ .caret then
      segments ++ [{ last with text := last.text ++ s.text }]
    else segments ++ [last] ++ [s] := by
  simp [push]

theorem painted_push (segments : List Segment) (s : Segment) :
    painted (push segments s) = painted segments ++ painted [s] := by
  induction segments using List.reverseRecOn with
  | nil => rfl
  | append_singleton segments last =>
    rw [push_concat]
    split
    · rename_i h
      simp [painted, h.1]
    · simp [painted]

theorem carets_push (segments : List Segment) (s : Segment) :
    carets (push segments s) = carets segments ++ carets [s] := by
  induction segments using List.reverseRecOn with
  | nil => rfl
  | append_singleton segments last =>
    rw [push_concat]
    split
    · rename_i h
      simp [carets, h.1, h.2]
    · rw [carets_append]

theorem Tidy.push (h : Tidy segments) (hs : s.text ≠ []) : Tidy (push segments s) := by
  induction segments using List.reverseRecOn with
  | nil => exact ⟨by simpa [Segment.push] using hs, .singleton s⟩
  | append_singleton segments last =>
    obtain ⟨hnonempty, hapart⟩ := h
    simp only [List.mem_append, List.mem_singleton, or_imp, forall_and, forall_eq] at hnonempty
    rw [push_concat]
    split
    · constructor
      · simp +contextual [or_imp, hnonempty]
      · rw [List.isChain_append] at hapart ⊢
        simpa using hapart
    · rename_i hmerge
      constructor
      · simpa [or_imp, forall_and, hs] using hnonempty
      · refine List.isChain_append.2 ⟨hapart, .singleton s, ?_⟩
        simp only [List.getLast?_concat, List.head?_cons, Option.mem_some_iff]
        rintro _ rfl _ rfl hkind
        by_contra hcaret
        exact hmerge ⟨hkind, hkind ▸ hcaret⟩

theorem painted_foldl_push (parts : List Segment) :
    painted (parts.foldl Segment.push []) = painted parts := by
  induction parts using List.reverseRecOn with
  | nil => rfl
  | append_singleton parts s ih =>
    rw [List.foldl_append, List.foldl_cons, List.foldl_nil, painted_push, ih]
    simp [painted]

theorem carets_foldl_push (parts : List Segment) :
    carets (parts.foldl Segment.push []) = carets parts := by
  induction parts using List.reverseRecOn with
  | nil => rfl
  | append_singleton parts s ih =>
    rw [List.foldl_append, List.foldl_cons, List.foldl_nil, carets_push, ih, carets_append]

theorem tidy_foldl_push {parts : List Segment} (h : ∀ s ∈ parts, s.text ≠ []) :
    Tidy (parts.foldl Segment.push []) := by
  induction parts using List.reverseRecOn with
  | nil => exact ⟨nofun, .nil⟩
  | append_singleton parts s ih =>
    rw [List.foldl_append, List.foldl_cons, List.foldl_nil]
    exact (ih fun s hs => h s (List.mem_append_left _ hs)).push
      (h s (List.mem_append_right _ List.mem_cons_self))

end

/-! ## The segments of a line -/

section
variable {l : Line} {s : Segment} {before after : List Segment} {n : Nat}

/-- What stands behind a line with the caret at its end. -/
def trailing (l : Line) : List Segment :=
  if l.hasCaret ∧ l.column = l.text.length then [⟨.caret, [space]⟩] else []

theorem ofLine_eq (l : Line) : ofLine l = l.parts.foldl push [] ++ trailing l := rfl

/-- **The segments of a line** draw the line, every code unit in its own way, and one more blank if
the caret is at its end. -/
theorem painted_ofLine (l : Line) :
    painted (ofLine l) = l.paint 0 l.text ++ painted (trailing l) := by
  rw [ofLine_eq, painted_append, painted_foldl_push, Line.painted_parts]

theorem drawn_ofLine (l : Line) : drawn (ofLine l) = l.text ++ drawn (trailing l) := by
  rw [← map_snd_painted, painted_ofLine, List.map_append, map_snd_painted]
  rw [Line.map_snd_paint]

theorem carets_ofLine (l : Line) : carets (ofLine l) =
    if l.hasCaret then
      [⟨.caret, if l.column = l.text.length then [space] else l.text.slice l.column l.caretEnd⟩]
    else [] := by
  rw [ofLine_eq, carets_append, carets_foldl_push, Line.carets_parts, trailing]
  cases hcaret : l.hasCaret with
  | false => simp [carets]
  | true =>
    obtain ⟨-, -, hle⟩ := Line.hasCaret_iff.1 hcaret
    by_cases hend : l.column = l.text.length
    · simp [carets, hend]
    · have hlt : l.column < l.text.length := by omega
      simp [carets, hend, hlt]

theorem tidy_ofLine (l : Line) : Tidy (ofLine l) := by
  obtain ⟨hnonempty, hapart⟩ : Tidy (l.parts.foldl push []) :=
    tidy_foldl_push fun _ => Line.text_ne_nil_of_mem_parts
  rw [ofLine_eq, trailing]
  split
  · constructor
    · simpa [or_imp, forall_and] using hnonempty
    · refine List.isChain_append.2 ⟨hapart, .singleton _, ?_⟩
      simp only [List.head?_cons, Option.mem_some_iff]
      rintro last _ _ rfl hkind
      exact hkind
  · rw [List.append_nil]
    exact ⟨hnonempty, hapart⟩

/-- A code unit of a segment is drawn in the way of its column, or is the blank behind the line. -/
theorem kind_of_ofLine (h : ofLine l = before ++ s :: after) (hn : n < s.text.length) :
    (drawn before).length + n < l.text.length ∧ s.kind = l.kindAt ((drawn before).length + n) ∨
      (drawn before).length + n = l.text.length ∧ s.kind = .caret ∧ l.column = l.text.length := by
  have hunit : (painted (ofLine l))[(drawn before).length + n]? = some (s.kind, s.text[n]) := by
    rw [h, painted_append, ← map_snd_painted before, List.length_map,
      List.getElem?_append_right (Nat.le_add_right _ _), Nat.add_sub_cancel_left, painted,
      List.flatMap_cons, List.getElem?_append_left (by simpa using hn)]
    simp [hn]
  rw [painted_ofLine] at hunit
  by_cases hlt : (drawn before).length + n < l.text.length
  · left
    rw [List.getElem?_append_left (by simpa [Line.paint] using hlt), Line.getElem?_paint,
      List.getElem?_eq_getElem hlt] at hunit
    simp only [Option.map_some, Option.some.injEq, Prod.mk.injEq, Int.zero_add, Int.natCast_add]
      at hunit
    exact ⟨hlt, hunit.1.symm⟩
  · right
    rw [List.getElem?_append_right (by simpa [Line.paint] using Nat.le_of_not_lt hlt)] at hunit
    unfold trailing at hunit
    split at hunit
    · rename_i hend
      obtain ⟨hindex, hpair⟩ := List.getElem?_eq_some_iff.1 hunit
      simp only [painted, List.flatMap_cons, List.flatMap_nil, List.map_cons, List.map_nil,
        List.append_nil, List.length_singleton, Line.paint, List.length_mapIdx] at hindex hpair
      rw [List.getElem_singleton, Prod.mk.injEq] at hpair
      exact ⟨by omega, hpair.1.symm, hend.2⟩
    · simp [painted] at hunit

/-- **The caret** begins at its column. -/
theorem length_drawn_before_caret (h : ofLine l = before ++ s :: after) (hs : s.kind = .caret) :
    l.hasCaret = true ∧ ((drawn before).length : Int) = l.column ∧
      s.text = if l.column = l.text.length then [space] else l.text.slice l.column l.caretEnd := by
  have hmem : s ∈ carets (ofLine l) := List.mem_filter.2 ⟨by simp [h], by simpa using hs⟩
  rw [carets_ofLine, List.mem_ite_nil_right, List.mem_singleton] at hmem
  obtain ⟨hcaret, htext⟩ := hmem
  obtain ⟨-, hnonneg, hle⟩ := Line.hasCaret_iff.1 hcaret
  have htext : s.text =
      if l.column = l.text.length then [space] else l.text.slice l.column l.caretEnd :=
    congrArg Segment.text htext
  refine ⟨hcaret, ?_, htext⟩
  by_cases hend : l.column = l.text.length
  · rw [if_pos hend] at htext
    rcases kind_of_ofLine (n := 0) h (by simp [htext]) with ⟨hlt, hkind⟩ | ⟨hlength, -⟩
    · have := Line.kindAt_eq_caret_iff.1 (hkind.symm.trans hs)
      omega
    · omega
  · rw [if_neg hend] at htext
    have hlt : l.column < l.text.length := by omega
    have hbounds := Line.caretEnd_bounds hcaret hlt
    have hlength := Text.length_slice hnonneg (Int.le_of_lt hbounds.1) hbounds.2.2
    rw [← htext] at hlength
    have hunder {n : Nat} (hn : n < s.text.length) : l.column ≤ (drawn before).length + n ∧
        (drawn before).length + n < l.caretEnd := by
      rcases kind_of_ofLine h hn with ⟨-, hkind⟩ | ⟨-, -, hcolumn⟩
      · exact (Line.kindAt_eq_caret_iff.1 (hkind.symm.trans hs)).2
      · exact absurd hcolumn hend
    -- its first code unit lies under the caret, and so does its last
    have hfirst := hunder (n := 0) (by omega)
    have hlast := hunder (n := s.text.length - 1) (by omega)
    omega

theorem eq_nil_of_caret_at_end (h : ofLine l = before ++ s :: after) (hs : s.kind = .caret)
    (hend : l.column = l.text.length) : after = [] := by
  obtain ⟨hcaret, hlength, htext⟩ := length_drawn_before_caret h hs
  have hdrawn := congrArg List.length (drawn_ofLine l)
  rw [h, trailing, if_pos ⟨hcaret, hend⟩] at hdrawn
  rw [if_pos hend] at htext
  have hnone : (after.flatMap Segment.text).length = 0 := by
    simp only [drawn, List.flatMap_append, List.flatMap_cons, List.flatMap_nil, List.length_append,
      htext, List.length_singleton, List.length_nil] at hdrawn hlength
    omega
  rw [List.length_eq_zero_iff, List.flatMap_eq_nil_iff] at hnone
  refine List.eq_nil_iff_forall_not_mem.2 fun s' hs' => ?_
  exact (tidy_ofLine l).nonempty s' (by simp [h, hs']) (hnone s' hs')

end

/-- **The segments tile the line.** Whatever the cursor, on the line or off it, with the position
before or behind the anchor: the segments of a line draw the line, and one more blank if the caret
is shown at its end. None is empty, and no two neighbours are both plain or both selected. There is
one caret if it is shown and the position lies on the line, and none otherwise. It begins at the
column of the position. At the line's end it is the blank; before that it covers the character up to
the next one, unless the anchor lies inside that character. Every other code unit is selected exactly
if its offset in the document lies between the two ends of the cursor. -/
theorem ofLine_tiles (l : Line) :
    let segments := ofLine l
    let column := l.cursor.position - l.start
    drawn segments = l.text ++ (if l.showCaret ∧ column = l.text.length then [space] else []) ∧
    (∀ s ∈ segments, s.text ≠ []) ∧
    (segments.IsChain fun s s' => s.kind = s'.kind → s.kind = .caret) ∧
    (segments.countP (·.kind = .caret) = if l.showCaret ∧ l.start ≤ l.cursor.position ∧
      l.cursor.position ≤ l.start + l.text.length then 1 else 0) ∧
    (∀ before s after, segments = before ++ s :: after → s.kind = .caret →
      (drawn before).length = column ∧
      (column = l.text.length → s.text = [space] ∧ after = []) ∧
      (column < l.text.length →
        ¬ (column < l.cursor.anchor - l.start ∧ l.cursor.anchor - l.start < l.text.next column) →
        s.text = l.text.slice column (l.text.next column))) ∧
    ∀ before s after, segments = before ++ s :: after → s.kind ≠ .caret →
      ∀ n : Nat, n < s.text.length →
      let o := l.start + (drawn before).length + n
      s.kind = .selected ↔ min l.cursor.position l.cursor.anchor ≤ o ∧
        o < max l.cursor.position l.cursor.anchor := by
  intro segments column
  obtain ⟨hnonempty, hapart⟩ := tidy_ofLine l
  have hon : l.hasCaret = true ↔ l.showCaret = true ∧ l.start ≤ l.cursor.position ∧
      l.cursor.position ≤ l.start + l.text.length := by
    rw [Line.hasCaret_iff, Line.column]
    exact and_congr_right fun _ => by omega
  have hat : (l.showCaret = true ∧ column = l.text.length) ↔
      l.hasCaret = true ∧ l.column = l.text.length := by
    rw [hon, and_assoc]
    exact and_congr_right fun _ => by simp only [Line.column, column]; omega
  refine ⟨?_, hnonempty, hapart, ?_, ?_, ?_⟩
  · simp only [segments, drawn_ofLine, trailing, hat]
    split <;> rfl
  · have hcount : segments.countP (·.kind = .caret) = (carets segments).length :=
      List.countP_eq_length_filter ..
    rw [hcount, carets_ofLine]
    simp only [hon]
    split <;> rfl
  · intro before s after h hs
    obtain ⟨-, hlength, htext⟩ := length_drawn_before_caret h hs
    refine ⟨hlength, fun hend => ?_, fun hlt hanchor => ?_⟩
    · exact ⟨htext.trans (if_pos hend), eq_nil_of_caret_at_end h hs hend⟩
    · have hcharacter : l.caretEnd = l.text.next l.column := if_neg hanchor
      rw [hcharacter] at htext
      exact htext.trans (if_neg (Int.ne_of_lt hlt))
  · intro before s after h hs n hn
    rcases kind_of_ofLine h hn with ⟨-, hkind⟩ | ⟨-, hcaret, -⟩
    · rw [hkind] at hs ⊢
      rw [Line.kindAt_eq_selected_iff hs, ← Int.add_assoc]
      rfl
    · exact absurd hcaret hs

end Segment

end ModalEditor
