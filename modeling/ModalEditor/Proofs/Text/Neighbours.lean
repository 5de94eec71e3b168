import ModalEditor.Proofs.Text.Lines

/-!
# A line between its neighbours

`t.lines = before ++ line :: after` puts a line between the lines around it. The text is then
`before`, each with its line feed (`Text.ended`), the line, and `after`, each behind its line feed
(`Text.led`): `Text.eq_of_lines`. A text put together in this way is cut into just these lines again
(`Text.lines_ended_append`, `Text.lines_append_led`), whatever stands in the middle, so that an edit
of whole lines is an edit of the list.

`Text.lineAt_of_lines`: the offsets of the line are those between its two ends.
-/

namespace ModalEditor

namespace Text

/-- Lines, each behind a line feed. -/
def led (ls : List Text) : Text := ls.flatMap (newline :: ·)

theorem ended_cons (l : Text) (ls : List Text) : ended (l :: ls) = l ++ newline :: ended ls := by
  simp [ended]

theorem ended_concat (ls : List Text) (l : Text) :
    ended (ls ++ [l]) = ended ls ++ l ++ [newline] := by
  simp [ended]

theorem led_cons (l : Text) (ls : List Text) : led (l :: ls) = newline :: l ++ led ls := by
  simp [led]

/-! ## Cutting what was put together -/

theorem lines_of_notMem {u : Text} (h : newline ∉ u) : u.lines = [u] := by
  induction u with
  | nil => rfl
  | cons x u ih =>
    simp only [List.mem_cons, not_or] at h
    rw [lines, if_neg (Ne.symm h.1), ih h.2]

theorem lines_append_newline (u v : Text) : (u ++ newline :: v).lines = u.lines ++ v.lines := by
  induction u with
  | nil => simp [lines]
  | cons x u ih =>
    rw [List.cons_append, lines, lines, ih]
    split
    · rfl
    · cases hu : lines u with
      | nil => exact absurd hu (lines_ne_nil u)
      | cons first rest => rfl

theorem lines_ended_append {ls : List Text} (h : ∀ l ∈ ls, newline ∉ l) (u : Text) :
    (ended ls ++ u).lines = ls ++ u.lines := by
  induction ls with
  | nil => rfl
  | cons l ls ih =>
    obtain ⟨hl, hls⟩ := List.forall_mem_cons.1 h
    have hcons : ended (l :: ls) ++ u = l ++ newline :: (ended ls ++ u) := by simp [ended_cons]
    rw [hcons, lines_append_newline, lines_of_notMem hl, ih hls]
    rfl

theorem lines_append_led {ls : List Text} (h : ∀ l ∈ ls, newline ∉ l) (u : Text) :
    (u ++ led ls).lines = u.lines ++ ls := by
  induction ls generalizing u with
  | nil => simp [led]
  | cons l ls ih =>
    obtain ⟨hl, hls⟩ := List.forall_mem_cons.1 h
    have hcons : u ++ led (l :: ls) = (u ++ newline :: l) ++ led ls := by simp [led_cons]
    rw [hcons, ih hls, lines_append_newline, lines_of_notMem hl]
    simp

theorem ofLines_cons (line : Text) (rest : List Text) :
    ofLines (line :: rest) = line ++ led rest := by
  induction rest generalizing line with
  | nil => simp [ofLines, led]
  | cons next rest ih =>
    rw [ofLines, ih]
    · simp [led_cons]
    · simp

/-! ## The line that holds an offset -/

theorem count_ended {ls : List Text} (h : ∀ l ∈ ls, newline ∉ l) :
    (ended ls).count newline = ls.length := by
  induction ls with
  | nil => rfl
  | cons l ls ih =>
    obtain ⟨hl, hls⟩ := List.forall_mem_cons.1 h
    rw [ended_cons, List.count_append, List.count_cons_self, ih hls,
      List.count_eq_zero_of_not_mem hl]
    simp

theorem ended_lines (t : Text) : ended t.lines = t ++ [newline] := by
  have hlines : (t ++ [newline]).lines = t.lines ++ [[]] := lines_append_newline t []
  rw [← ofLines_lines (t ++ [newline]), hlines, ofLines_append (by simp)]
  exact (List.append_nil _).symm

theorem length_lines (t : Text) : t.lines.length = t.count newline + 1 := by
  rw [← count_ended fun _ => newline_notMem_lines, ended_lines, List.count_append,
    List.count_singleton_self]

theorem exists_lines_of_lt {t : Text} {i : Nat} (h : i < t.lineCount) : ∃ before line after,
    t.lines = before ++ line :: after ∧ before.length = i := by
  rw [lineCount_eq_length_lines] at h
  refine ⟨t.lines.take i, t.lines[i], t.lines.drop (i + 1), ?_, ?_⟩
  · rw [← List.drop_eq_getElem_cons h, List.take_append_drop]
  · rw [List.length_take, Nat.min_eq_left (Nat.le_of_lt h)]

theorem exists_lines (t : Text) (o : Int) : ∃ before line after,
    t.lines = before ++ line :: after ∧ before.length = t.lineAt o :=
  exists_lines_of_lt (t.lineAt_lt o)

/-! ## A line in its place -/

section
variable {t line : Text} {before after : List Text} (h : t.lines = before ++ line :: after)
include h

theorem newline_notMem_of_lines :
    (∀ l ∈ before, newline ∉ l) ∧ newline ∉ line ∧ ∀ l ∈ after, newline ∉ l := by
  have hall : ∀ l ∈ before ++ line :: after, newline ∉ l := fun l hl =>
    newline_notMem_lines (h ▸ hl)
  simp only [List.forall_mem_append, List.forall_mem_cons] at hall
  exact hall

theorem eq_of_lines : t = ended before ++ line ++ led after := by
  rw [← ofLines_lines t, h, ofLines_append (List.cons_ne_nil _ _), ofLines_cons,
    List.append_assoc]

theorem lineCount_of_lines : t.lineCount = before.length + after.length + 1 := by
  rw [lineCount_eq_length_lines, h]
  simp [Nat.add_assoc]

theorem getElem?_of_lines : t.lines[before.length]? = some line := by
  rw [h, List.getElem?_append_right (Nat.le_refl _), Nat.sub_self]
  rfl

theorem lineText_of_lines : t.lineText before.length = line := lineText_eq (getElem?_of_lines h)

theorem lineStart_of_lines : t.lineStart before.length = (ended before).length := by
  have hlt : before.length < t.lineCount := by
    rw [lineCount_of_lines h]
    omega
  rw [lineStart_eq hlt, h, List.take_left]

theorem lineEnd_of_lines : t.lineEnd before.length = (ended before ++ line).length := by
  rw [lineEnd, lineStart_of_lines h, lineText_of_lines h, List.length_append]
  rfl

theorem lineAt_of_lines {o : Int} (hstart : t.lineStart before.length ≤ o)
    (hend : o ≤ t.lineEnd before.length) : t.lineAt o = before.length := by
  obtain ⟨hbefore, hline, -⟩ := newline_notMem_of_lines h
  rw [lineStart_of_lines h] at hstart
  rw [lineEnd_of_lines h] at hend
  have hlength : (ended before ++ line).length ≤ t.length := by
    rw [eq_of_lines h]
    exact (List.prefix_append _ _).length_le
  have hclamp : t.clamp o = o := clamp_of_mem (by omega) (by omega)
  have htake : t.take o.toNat = ended before ++ line.take (o.toNat - (ended before).length) := by
    rw [List.length_append] at hend
    rw [eq_of_lines h, List.append_assoc, List.take_append, List.take_of_length_le (by omega),
      List.take_append_of_le_length (by omega)]
  have hnone : (line.take (o.toNat - (ended before).length)).count newline = 0 :=
    List.count_eq_zero_of_not_mem fun hm => hline (List.mem_of_mem_take hm)
  rw [lineAt_eq_count, hclamp, htake, List.count_append, count_ended hbefore, hnone, Nat.add_zero]

/-- The last full line has no other line after it but the empty one after a final line feed. -/
theorem lastFullLine_le_iff : t.lastFullLine ≤ before.length ↔ after = [] ∨ after = [[]] := by
  have hcount := lineCount_of_lines h
  have hlast : t.lineText (t.lineCount - 1 : Nat) =
      (line :: after).getLast (List.cons_ne_nil _ _) := by
    apply lineText_eq
    rw [lineCount_eq_length_lines, ← List.getLast?_eq_getElem?, h, List.getLast?_append,
      List.getLast?_eq_some_getLast (List.cons_ne_nil _ _)]
    rfl
  unfold lastFullLine
  dsimp only
  rw [hlast, hcount]
  match after with
  | [] => split <;> simp
  | [next] =>
    by_cases hnext : next = []
    · simp [hnext]
    · simp [hnext]
  | _ :: _ :: _ =>
    refine iff_of_false ?_ (by simp)
    rw [List.length_cons, List.length_cons]
    split <;> omega

end

/-! ## A line and its offsets -/

theorem clamp_mem_line (t : Text) (o : Int) :
    t.lineStart (t.lineAt o) ≤ t.clamp o ∧ t.clamp o ≤ t.lineEnd (t.lineAt o) := by
  have hwindow := t.window_lineAt o
  constructor
  · rw [lineStart_eq_getD, nearestLine_lineAt]
    exact hwindow.starts_le
  · obtain ⟨before, line, after, hlines, hlength⟩ := t.exists_lines o
    rw [← hlength, lineEnd_of_lines hlines]
    cases after with
    | nil =>
      have htext := congrArg List.length (eq_of_lines hlines)
      simp only [led, List.flatMap_nil, List.append_nil] at htext
      rw [← htext]
      exact t.clamp_le o
    | cons next rest =>
      -- the next line begins behind the offset
      have hnext := lineStart_of_lines (hlines.trans (List.append_cons before line (next :: rest)))
      have hcount := lineCount_of_lines hlines
      rw [List.length_cons] at hcount
      rw [List.length_append, List.length_singleton, ended_concat, lineStart_eq_getD,
        nearestLine_of_lt (by omega)] at hnext
      have hbehind := hwindow.lt_starts (before.length + 1) (by omega)
        (show before.length + 1 < t.lineCount by omega)
      rw [hnext, List.length_append, List.length_singleton] at hbehind
      omega

theorem lineEnd_nearestLine (t : Text) (line : Int) :
    t.lineEnd (t.nearestLine line : Nat) = t.lineEnd line := by
  unfold lineEnd
  rw [lineStart_nearestLine, lineText_nearestLine]

theorem lineAt_eq_nearestLine {t : Text} {line o : Int} (hstart : t.lineStart line ≤ o)
    (hend : o ≤ t.lineEnd line) : t.lineAt o = t.nearestLine line := by
  obtain ⟨before, text, after, hlines, hlength⟩ := exists_lines_of_lt (t.nearestLine_lt line)
  rw [← lineStart_nearestLine, ← hlength] at hstart
  rw [← lineEnd_nearestLine, ← hlength] at hend
  rw [lineAt_of_lines hlines hstart hend, hlength]

/-! ## A text between two others -/

theorem lineAt_append (u v : Text) : (u ++ v).lineAt u.length = u.count newline := by
  have hle : (u.length : Int) ≤ (u ++ v).length := by
    rw [List.length_append]
    omega
  rw [lineAt_eq_count, clamp_of_mem (by omega) hle, Int.toNat_natCast, List.take_left]

/-- What stands between two texts, and has no line feed, is on one line with the end of the first and
the beginning of the second; the other lines do not depend on it. -/
theorem exists_lines_around (u w : Text) : ∃ before l r after, before.length = u.count newline ∧
    ∀ v, newline ∉ v → (u ++ v ++ w).lines = before ++ (l ++ v ++ r) :: after := by
  obtain ⟨before, l, hu⟩ : ∃ before l, u.lines = before ++ [l] :=
    ⟨_, _, (List.dropLast_concat_getLast u.lines_ne_nil).symm⟩
  obtain ⟨r, after, hw⟩ : ∃ r after, w.lines = [] ++ r :: after :=
    List.exists_cons_of_ne_nil w.lines_ne_nil
  obtain ⟨hbefore, hl, -⟩ := newline_notMem_of_lines hu
  obtain ⟨-, hr, hafter⟩ := newline_notMem_of_lines hw
  refine ⟨before, l, r, after, ?_, fun v hv => ?_⟩
  · have hcount := length_lines u
    rw [hu, List.length_append, List.length_singleton] at hcount
    exact Nat.succ.inj hcount
  · have hparts : u ++ v ++ w = ended before ++ ((l ++ v ++ r) ++ led after) := by
      rw [eq_of_lines hu, eq_of_lines hw]
      simp [ended, led]
    have hline : newline ∉ l ++ v ++ r := by simp [hl, hv, hr]
    rw [hparts, lines_ended_append hbefore, lines_append_led hafter, lines_of_notMem hline]
    rfl

end Text

end ModalEditor
