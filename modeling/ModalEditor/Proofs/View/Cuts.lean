import Mathlib.Data.List.Chain
import Mathlib.Data.List.Pairwise
import ModalEditor.Proofs.Text.Character
import ModalEditor.View.Segment

/-!
# The cuts of a line

A line is cut at up to six columns. Between two neighbouring cuts all code units are drawn alike,
because every column at which the way of drawing changes is a cut
(`Segment.Line.kindAt_eq_kindBetween`): the ends of the selection, brought into the line, the column
of the caret and the end of its character.

So the parts between the cuts draw every code unit of the line once, in the way that its own offset
in the document asks for (`Segment.Line.painted_parts`), and one of them is the caret, if it lies on
the line and before its end (`Segment.Line.carets_parts`).
-/

namespace ModalEditor

namespace Text

theorem length_slice {t : Text} {a b : Int} (ha : 0 ≤ a) (hab : a ≤ b) (hb : b ≤ t.length) :
    ((t.slice a b).length : Int) = b - a := by
  rw [slice_of_mem ha (by omega) (by omega) hb, List.length_drop, List.length_take]
  omega

theorem slice_self (t : Text) (a : Int) : t.slice a a = [] :=
  List.drop_eq_nil_of_le (List.length_take_le ..)

theorem slice_append_slice {t : Text} {a b c : Int} (ha : 0 ≤ a) (hab : a ≤ b) (hbc : b ≤ c)
    (hc : c ≤ t.length) : t.slice a b ++ t.slice b c = t.slice a c := by
  rw [slice_of_mem ha (by omega) (by omega) (by omega),
    slice_of_mem (by omega) (by omega) (by omega) hc, slice_of_mem ha (by omega) (by omega) hc,
    ← List.drop_append_of_le_length (by rw [List.length_take]; omega)]
  congr 1
  have htake : t.take b.toNat = (t.take c.toNat).take b.toNat := by
    rw [List.take_take, Nat.min_eq_left (by omega)]
  rw [htake, List.take_append_drop]

theorem slice_whole (t : Text) : t.slice 0 t.length = t := by
  rw [slice_of_mem (by omega) (by omega) (by omega) (by omega)]
  simp

end Text

namespace Segment

/-- The text that segments draw. -/
def drawn (segments : List Segment) : Text := segments.flatMap Segment.text

/-- The code units that segments draw, each with the way in which it is drawn. -/
def painted (segments : List Segment) : List (SegmentKind × CodeUnit) :=
  segments.flatMap fun s => s.text.map (s.kind, ·)

/-- The segments that are drawn as the caret. -/
def carets (segments : List Segment) : List Segment := segments.filter (·.kind = .caret)

theorem map_snd_painted (segments : List Segment) :
    (painted segments).map Prod.snd = drawn segments := by
  simp [painted, drawn, List.map_flatMap, Function.comp_def]

theorem painted_append (a b : List Segment) : painted (a ++ b) = painted a ++ painted b :=
  List.flatMap_append ..

theorem carets_append (a b : List Segment) : carets (a ++ b) = carets a ++ carets b :=
  List.filter_append ..

/-! ## Neighbours in an ascending list -/

section
variable {cuts : List Int} {a b c : Int}

theorem mem_of_mem_zip_tail (h : (a, b) ∈ cuts.zip cuts.tail) : a ∈ cuts ∧ b ∈ cuts := by
  obtain ⟨ha, hb⟩ := List.of_mem_zip h
  exact ⟨ha, List.mem_of_mem_tail hb⟩

theorem le_or_le_of_mem_zip_tail (hs : cuts.Pairwise (· ≤ ·)) (h : (a, b) ∈ cuts.zip cuts.tail)
    (hc : c ∈ cuts) : c ≤ a ∨ b ≤ c := by
  induction cuts with
  | nil => cases hc
  | cons first rest ih =>
    obtain ⟨hfirst, hrest⟩ := List.pairwise_cons.1 hs
    cases rest with
    | nil => cases h
    | cons second rest =>
      rw [List.tail_cons, List.zip_cons_cons, List.mem_cons] at h
      rcases h with h | h
      · obtain ⟨rfl, rfl⟩ := Prod.mk.inj h
        rcases List.mem_cons.1 hc with rfl | hc
        · exact .inl (Int.le_refl _)
        · rcases List.mem_cons.1 hc with rfl | hc
          · exact .inr (Int.le_refl _)
          · exact .inr ((List.pairwise_cons.1 hrest).1 c hc)
      · rcases List.mem_cons.1 hc with rfl | hc
        · exact .inl (hfirst a (mem_of_mem_zip_tail h).1)
        · exact ih hrest h hc

/-- Exactly one gap of an ascending list begins at a member that is not the greatest. -/
theorem exists_gap (hs : cuts.Pairwise (· ≤ ·)) (ha : a ∈ cuts) (hc : c ∈ cuts) (hac : a < c) :
    ∃ b, a < b ∧ (a, b) ∈ cuts.zip cuts.tail ∧
      ((cuts.zip cuts.tail).filter fun p => p.1 < p.2).filter (fun p => p.1 = a) = [(a, b)] := by
  induction cuts with
  | nil => cases ha
  | cons first rest ih =>
    obtain ⟨hfirst, hrest⟩ := List.pairwise_cons.1 hs
    cases rest with
    | nil =>
      rw [List.mem_singleton.1 ha, List.mem_singleton.1 hc] at hac
      omega
    | cons second rest =>
      have hle := hfirst second List.mem_cons_self
      rw [List.tail_cons, List.zip_cons_cons]
      by_cases hgap : first = a ∧ a < second
      · obtain ⟨rfl, hlt⟩ := hgap
        refine ⟨second, hlt, List.mem_cons_self, ?_⟩
        have hnone :
            ((second :: rest).zip rest).filter (fun p => p.1 = first ∧ p.1 < p.2) = [] := by
          rw [List.filter_eq_nil_iff]
          rintro ⟨x, y⟩ hp
          rcases List.mem_cons.1 (mem_of_mem_zip_tail hp).1 with rfl | hx
          · simp; omega
          · have := (List.pairwise_cons.1 hrest).1 x hx
            simp; omega
        simpa [hlt, List.filter_filter] using hnone
      · have ha' : a ∈ second :: rest := by
          rcases List.mem_cons.1 ha with rfl | ha
          · have : a = second := by omega
            simp [this]
          · exact ha
        have hc' : c ∈ second :: rest := by
          rcases List.mem_cons.1 hc with rfl | hc
          · have := hfirst a ha'
            omega
          · exact hc
        obtain ⟨b, hab, hmem, hfilter⟩ := ih hrest ha' hc'
        refine ⟨b, hab, List.mem_cons_of_mem _ hmem, ?_⟩
        rw [List.filter_filter] at hfilter ⊢
        rw [List.filter_cons_of_neg, ← hfilter]
        · rfl
        · simp
          omega

end

/-! ## The cuts of a line -/

namespace Line

section
variable {l : Line} {a b c i : Int}

/-- Where the caret ends: behind its character, or at the anchor, if that lies inside of it. -/
def caretEnd (l : Line) : Int :=
  if l.column < l.cursor.anchor - l.start ∧ l.cursor.anchor - l.start < l.text.next l.column then
    l.cursor.anchor - l.start
  else l.text.next l.column

/-- How the code unit at a column is drawn: under the caret, or selected if its offset in the
document lies between the two ends of the cursor, or plain. -/
def kindAt (l : Line) (i : Int) : SegmentKind :=
  if l.hasCaret ∧ l.column ≤ i ∧ i < l.caretEnd then .caret
  else if l.cursor.first ≤ l.start + i ∧ l.start + i < l.cursor.last then .selected
  else .plain

/-- Code units that stand from a column on, each with the way in which it is drawn. -/
def paint (l : Line) (i : Int) (t : Text) : List (SegmentKind × CodeUnit) :=
  t.mapIdx fun n u => (l.kindAt (i + n), u)

theorem hasCaret_iff : l.hasCaret = true ↔
    l.showCaret = true ∧ 0 ≤ l.column ∧ l.column ≤ l.text.length := by
  simp [hasCaret]

theorem mem_cuts : c ∈ l.cuts ↔ c = 0 ∨ c = l.text.length ∨ c = l.selectionStart ∨
    c = l.selectionEnd ∨ l.hasCaret = true ∧ (c = l.column ∨ c = l.column + l.caretWidth) := by
  rw [cuts, List.mem_mergeSort, List.mem_eraseDups, bounds]
  cases l.hasCaret <;> simp

theorem pairwise_cuts (l : Line) : l.cuts.Pairwise (· ≤ ·) := by
  have h : (l.bounds.eraseDups.mergeSort fun a b => decide (a ≤ b)).Pairwise
      fun a b => decide (a ≤ b) = true :=
    List.pairwise_mergeSort (by simp only [decide_eq_true_eq]; omega)
      (by simp only [Bool.or_eq_true, decide_eq_true_eq]; omega) _
  simpa [cuts] using h

theorem column_add_caretWidth (h : l.hasCaret = true) (hlt : l.column < l.text.length) :
    l.column + l.caretWidth = l.text.next l.column := by
  rw [caretWidth, if_pos ⟨h, hlt⟩, Text.next, if_neg (Int.not_le.2 hlt)]
  split <;> rfl

theorem caretEnd_bounds (h : l.hasCaret = true) (hlt : l.column < l.text.length) :
    l.column < l.caretEnd ∧ l.caretEnd ≤ l.text.next l.column ∧ l.caretEnd ≤ l.text.length := by
  obtain ⟨-, hnonneg, hle⟩ := hasCaret_iff.1 h
  have hnext := Text.next_bounds hnonneg hle
  have hstep := Text.next_eq hnonneg hlt
  unfold caretEnd
  split at hstep <;> split <;> omega

theorem mem_cuts_bounds (h : c ∈ l.cuts) : 0 ≤ c ∧ c ≤ l.text.length := by
  have hstart := l.text.clamp_nonneg (l.cursor.first - l.start)
  have hstart' := l.text.clamp_le (l.cursor.first - l.start)
  have hend := l.text.clamp_nonneg (l.cursor.last - l.start)
  have hend' := l.text.clamp_le (l.cursor.last - l.start)
  rcases mem_cuts.1 h with rfl | rfl | rfl | rfl | ⟨hcaret, hc⟩
  · omega
  · omega
  · exact ⟨hstart, hstart'⟩
  · exact ⟨hend, hend'⟩
  · obtain ⟨-, hnonneg, hle⟩ := hasCaret_iff.1 hcaret
    have hwidth : 0 ≤ l.caretWidth ∧ l.column + l.caretWidth ≤ l.text.length := by
      by_cases hlt : l.column < l.text.length
      · have := column_add_caretWidth hcaret hlt
        have := Text.next_bounds hnonneg hle
        omega
      · rw [caretWidth, if_neg fun h => hlt h.2]
        omega
    omega

theorem caretEnd_mem_cuts (h : l.hasCaret = true) (hlt : l.column < l.text.length) :
    l.caretEnd ∈ l.cuts := by
  have hbounds := caretEnd_bounds h hlt
  obtain ⟨-, hnonneg, -⟩ := hasCaret_iff.1 h
  rw [mem_cuts]
  unfold caretEnd at hbounds ⊢
  split
  · rename_i hinside
    rw [if_pos hinside] at hbounds
    right; right; right; left
    unfold selectionEnd Text.clamp Cursor.last
    unfold column at *
    omega
  · right; right; right; right
    exact ⟨h, .inr (column_add_caretWidth h hlt).symm⟩

theorem caretEnd_le (h : l.hasCaret = true) (hlt : l.column < l.text.length) (hc : c ∈ l.cuts)
    (hcolumn : l.column < c) : l.caretEnd ≤ c := by
  have hbounds := caretEnd_bounds h hlt
  obtain ⟨-, hnonneg, -⟩ := hasCaret_iff.1 h
  rcases mem_cuts.1 hc with rfl | rfl | rfl | rfl | ⟨-, rfl | rfl⟩
  · omega
  · omega
  · -- the selection does not begin behind the position
    unfold selectionStart Text.clamp Cursor.first column at *
    omega
  · unfold caretEnd at *
    unfold selectionEnd Text.clamp Cursor.last column at *
    split <;> omega
  · omega
  · rw [column_add_caretWidth h hlt]
    exact hbounds.2.1

/-- **Between two cuts** all code units are drawn alike. -/
theorem kindAt_eq_kindBetween (h : (a, b) ∈ l.cuts.zip l.cuts.tail) (ha : a ≤ i) (hb : i < b) :
    l.kindAt i = l.kindBetween a b := by
  obtain ⟨hamem, hbmem⟩ := mem_of_mem_zip_tail h
  have hapart {c : Int} (hc : c ∈ l.cuts) : c ≤ a ∨ b ≤ c :=
    le_or_le_of_mem_zip_tail l.pairwise_cuts h hc
  have habounds := mem_cuts_bounds hamem
  have hbbounds := mem_cuts_bounds hbmem
  by_cases hcaret : l.hasCaret = true ∧ a = l.column
  · obtain ⟨hcaret, rfl⟩ := hcaret
    have hlt : l.column < l.text.length := by omega
    have hend := hapart (caretEnd_mem_cuts hcaret hlt)
    have := caretEnd_bounds hcaret hlt
    rw [kindAt, kindBetween, if_pos ⟨hcaret, ha, by omega⟩, if_pos ⟨hcaret, rfl⟩]
  · have hnot : ¬ (l.hasCaret = true ∧ l.column ≤ i ∧ i < l.caretEnd) := by
      rintro ⟨hshown, hle, hend⟩
      have hcolumn := hapart (mem_cuts.2 (.inr (.inr (.inr (.inr ⟨hshown, .inl rfl⟩)))))
      have hne : a ≠ l.column := fun h => hcaret ⟨hshown, h⟩
      have := caretEnd_le hshown (by omega) hamem (by omega)
      omega
    have hselected : (l.cursor.first ≤ l.start + i ∧ l.start + i < l.cursor.last) ↔
        (l.selectionStart ≤ a ∧ b ≤ l.selectionEnd ∧ l.selectionStart < l.selectionEnd) := by
      have hstart := hapart (mem_cuts.2 (.inr (.inr (.inl rfl))))
      have hend := hapart (mem_cuts.2 (.inr (.inr (.inr (.inl rfl)))))
      unfold selectionStart selectionEnd Text.clamp at *
      omega
    rw [kindAt, kindBetween, if_neg hnot, if_neg hcaret]
    simp only [hselected]

/-! ## The parts of a line -/

theorem paint_append (l : Line) (i : Int) (t t' : Text) :
    l.paint i (t ++ t') = l.paint i t ++ l.paint (i + t.length) t' := by
  unfold paint
  rw [List.mapIdx_append]
  congr 2
  funext n u
  rw [Int.natCast_add, Int.add_assoc, Int.add_comm (n : Int)]

theorem paint_eq_map {t : Text} {kind : SegmentKind}
    (h : ∀ j, i ≤ j → j < i + t.length → l.kindAt j = kind) : l.paint i t = t.map (kind, ·) := by
  apply List.ext_getElem
  · simp [paint]
  · intro n hn hn'
    have hlt : n < t.length := by simpa using hn'
    simp [paint, h (i + n) (by omega) (by omega)]

theorem map_snd_paint (l : Line) (i : Int) (t : Text) : (l.paint i t).map Prod.snd = t := by
  apply List.ext_getElem <;> simp [paint]

theorem getElem?_paint (l : Line) (i : Int) (t : Text) (n : Nat) :
    (l.paint i t)[n]? = t[n]?.map fun u => (l.kindAt (i + n), u) := List.getElem?_mapIdx

theorem partsBetween_cons_cons (l : Line) (a b : Int) (rest : List Int) :
    l.partsBetween (a :: b :: rest) =
      (if a < b then [l.part a b] else []) ++ l.partsBetween (b :: rest) := by
  unfold partsBetween
  rw [List.tail_cons, List.zip_cons_cons, List.filter_cons]
  by_cases h : a < b <;> simp [h]

/-- The parts between ascending cuts draw what stands between the first cut and the last. -/
theorem painted_partsBetween (cuts : List Int) (hs : cuts.Pairwise (· ≤ ·))
    (hbounds : ∀ c ∈ cuts, 0 ≤ c ∧ c ≤ l.text.length) (hne : cuts ≠ [])
    (hkind : ∀ a b i, (a, b) ∈ cuts.zip cuts.tail → a ≤ i → i < b →
      l.kindAt i = l.kindBetween a b) :
    painted (l.partsBetween cuts) =
      l.paint (cuts.head hne) (l.text.slice (cuts.head hne) (cuts.getLast hne)) := by
  induction cuts with
  | nil => exact absurd rfl hne
  | cons a rest ih =>
    obtain ⟨hfirst, hrest⟩ := List.pairwise_cons.1 hs
    obtain ⟨ha, ha'⟩ := hbounds a List.mem_cons_self
    cases rest with
    | nil =>
      rw [List.head_cons, List.getLast_singleton, Text.slice_self]
      rfl
    | cons b rest =>
      have hbounds' : ∀ c ∈ b :: rest, 0 ≤ c ∧ c ≤ l.text.length := fun c hc =>
        hbounds c (List.mem_cons_of_mem _ hc)
      obtain ⟨hb, hb'⟩ := hbounds' b List.mem_cons_self
      have hab := hfirst b List.mem_cons_self
      have hlast : b ≤ (b :: rest).getLast _ := hrest.rel_getLast List.mem_cons_self
      have hlast' := (hbounds' _ (List.getLast_mem (List.cons_ne_nil b rest))).2
      have hpart : painted (if a < b then [l.part a b] else []) = l.paint a (l.text.slice a b) := by
        have hlength := Text.length_slice ha hab hb'
        split
        · rw [paint_eq_map fun j hj hj' => hkind a b j List.mem_cons_self hj (by omega)]
          simp [painted, part]
        · obtain rfl : a = b := by omega
          rw [Text.slice_self]
          rfl
      have hbehind := ih hrest hbounds' (List.cons_ne_nil _ _) fun x y i hp =>
        hkind x y i (List.mem_cons_of_mem _ hp)
      rw [partsBetween_cons_cons, painted_append, hpart, hbehind, List.head_cons, List.head_cons,
        List.getLast_cons (List.cons_ne_nil b rest), ← Text.slice_append_slice ha hab hlast hlast',
        paint_append, Text.length_slice ha hab hb', show a + (b - a) = b by omega]

/-- **The parts of a line** draw the line, every code unit in its own way. -/
theorem painted_parts (l : Line) : painted l.parts = l.paint 0 l.text := by
  have hzero : (0 : Int) ∈ l.cuts := mem_cuts.2 (.inl rfl)
  have hlength : (l.text.length : Int) ∈ l.cuts := mem_cuts.2 (.inr (.inl rfl))
  have hne := List.ne_nil_of_mem hzero
  have hhead : l.cuts.head hne = 0 :=
    Int.le_antisymm (l.pairwise_cuts.rel_head hzero) (mem_cuts_bounds (List.head_mem hne)).1
  have hlast : l.cuts.getLast hne = l.text.length :=
    Int.le_antisymm (mem_cuts_bounds (List.getLast_mem hne)).2 (l.pairwise_cuts.rel_getLast hlength)
  rw [parts, painted_partsBetween l.cuts l.pairwise_cuts (fun c => mem_cuts_bounds) hne
    fun a b i h => kindAt_eq_kindBetween h, hhead, hlast, Text.slice_whole]

theorem kindBetween_eq_caret_iff :
    l.kindBetween a b = .caret ↔ l.hasCaret = true ∧ a = l.column := by
  unfold kindBetween
  by_cases h : l.hasCaret = true ∧ a = l.column
  · simp [h]
  · rw [if_neg h]
    split <;> simpa using h

theorem kindAt_eq_caret_iff :
    l.kindAt i = .caret ↔ l.hasCaret = true ∧ l.column ≤ i ∧ i < l.caretEnd := by
  unfold kindAt
  by_cases h : l.hasCaret = true ∧ l.column ≤ i ∧ i < l.caretEnd
  · simp [h]
  · rw [if_neg h]
    split <;> simpa using h

/-- But for the caret, the offset in the document decides. -/
theorem kindAt_eq_selected_iff (h : l.kindAt i ≠ .caret) :
    l.kindAt i = .selected ↔ l.cursor.first ≤ l.start + i ∧ l.start + i < l.cursor.last := by
  have hnot := mt kindAt_eq_caret_iff.2 h
  rw [kindAt, if_neg hnot]
  by_cases hbetween : l.cursor.first ≤ l.start + i ∧ l.start + i < l.cursor.last
  · simp [hbetween]
  · simp [hbetween]

theorem carets_parts (l : Line) : carets l.parts =
    if l.hasCaret ∧ l.column < l.text.length then
      [⟨.caret, l.text.slice l.column l.caretEnd⟩]
    else [] := by
  have hcarets : carets l.parts = (((l.cuts.zip l.cuts.tail).filter fun c => c.1 < c.2).filter
      fun c => l.hasCaret ∧ c.1 = l.column).map fun c => l.part c.1 c.2 := by
    simp only [carets, parts, partsBetween, List.filter_map, Function.comp_def, part,
      kindBetween_eq_caret_iff]
  have hlength : (l.text.length : Int) ∈ l.cuts := mem_cuts.2 (.inr (.inl rfl))
  rw [hcarets]
  split
  · rename_i h
    obtain ⟨hcaret, hlt⟩ := h
    have hmem : l.column ∈ l.cuts := mem_cuts.2 (.inr (.inr (.inr (.inr ⟨hcaret, .inl rfl⟩))))
    obtain ⟨b, hb, hgap, hfilter⟩ := exists_gap l.pairwise_cuts hmem hlength hlt
    have hend : b = l.caretEnd := by
      have hle := caretEnd_le hcaret hlt (mem_of_mem_zip_tail hgap).2 hb
      have hapart := le_or_le_of_mem_zip_tail l.pairwise_cuts hgap (caretEnd_mem_cuts hcaret hlt)
      have := (caretEnd_bounds hcaret hlt).1
      omega
    simp only [hcaret, true_and, hfilter, List.map_cons, List.map_nil, part, hend,
      kindBetween_eq_caret_iff.2 ⟨hcaret, rfl⟩]
  · rename_i h
    rw [List.map_eq_nil_iff, List.filter_eq_nil_iff]
    rintro ⟨a, b⟩ hgap
    obtain ⟨hzip, hlt⟩ := List.mem_filter.1 hgap
    have := (mem_cuts_bounds (mem_of_mem_zip_tail hzip).2).2
    simp only [decide_eq_true_eq, not_and] at hlt ⊢
    rintro hcaret rfl
    exact h ⟨hcaret, by omega⟩

theorem text_ne_nil_of_mem_parts {s : Segment} (h : s ∈ l.parts) : s.text ≠ [] := by
  obtain ⟨⟨a, b⟩, hgap, rfl⟩ := List.mem_map.1 h
  obtain ⟨hzip, hlt⟩ := List.mem_filter.1 hgap
  obtain ⟨ha, hb⟩ := mem_of_mem_zip_tail hzip
  have hlength := Text.length_slice (mem_cuts_bounds ha).1 (Int.le_of_lt (by simpa using hlt))
    (mem_cuts_bounds hb).2
  intro hnil
  rw [show l.text.slice a b = [] from hnil, List.length_nil] at hlength
  simp only [decide_eq_true_eq] at hlt
  omega

end

end Line

end Segment

end ModalEditor
