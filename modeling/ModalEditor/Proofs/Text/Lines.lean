import ModalEditor.Proofs.Text.Halving

/-!
# The line index and the lines

`Text.lineStarts` is an index of offsets; `Text.lines` is the list of the lines. Line `i` of the
index is line `i` of the list (`lineText_eq`), and it begins after the lines before it with their
line feeds (`lineStart_eq`). `Text.exists_line` puts it into the text: what stands before a line is
empty or ends in a line feed, and what stands after it is empty or begins with one.
-/

namespace ModalEditor

namespace Text

/-! ## Where lines begin -/

/-- Where the lines of a list begin, if the first one begins at `start`. -/
def startsFrom (start : Nat) : List Text → List Nat
  | [] => []
  | line :: rest => start :: startsFrom (start + line.length + 1) rest

/-- Lines, each with its line feed. -/
def ended (ls : List Text) : Text := ls.flatMap (· ++ [newline])

theorem cons_breaksAfter (start : Nat) (t : Text) :
    start :: breaksAfter start t = startsFrom start t.lines := by
  induction t generalizing start with
  | nil => rfl
  | cons u t ih =>
    unfold lines breaksAfter
    split
    · rw [ih]
      rfl
    · have h := ih (start + 1)
      cases hl : lines t with
      | nil => exact absurd hl (lines_ne_nil t)
      | cons line rest =>
        rw [hl] at h
        simp only [startsFrom, List.cons.injEq, true_and] at h ⊢
        rw [h, List.length_cons]
        congr 1
        omega

theorem lineStarts_eq (t : Text) : t.lineStarts = startsFrom 0 t.lines := cons_breaksAfter 0 t

theorem startsFrom_getElem? (start : Nat) (ls : List Text) (i : Nat) (h : i < ls.length) :
    (startsFrom start ls)[i]? = some (start + (ended (ls.take i)).length) := by
  induction ls generalizing start i with
  | nil => simp at h
  | cons line rest ih =>
    cases i with
    | zero => rfl
    | succ i =>
      rw [startsFrom, List.getElem?_cons_succ, ih _ _ (by simpa using h), List.take_succ_cons, ended,
        ended, List.flatMap_cons, List.length_append, List.length_append, List.length_singleton]
      congr 1
      omega

theorem length_startsFrom (start : Nat) (ls : List Text) :
    (startsFrom start ls).length = ls.length := by
  induction ls generalizing start with
  | nil => rfl
  | cons line rest ih => rw [startsFrom, List.length_cons, List.length_cons, ih]

theorem ended_take_succ {ls : List Text} {i : Nat} {line : Text} (h : ls[i]? = some line) :
    ended (ls.take (i + 1)) = ended (ls.take i) ++ (line ++ [newline]) := by
  unfold ended
  rw [List.take_add_one, h, List.flatMap_append]
  simp

/-! ## Joined lines -/

theorem ofLines_append {as bs : List Text} (h : bs ≠ []) :
    ofLines (as ++ bs) = ended as ++ ofLines bs := by
  induction as with
  | nil => rfl
  | cons a as ih =>
    have hne : as ++ bs ≠ [] := by simp [h]
    obtain ⟨b, rest, hb⟩ := List.exists_cons_of_ne_nil hne
    have : ofLines (a :: (as ++ bs)) = a ++ newline :: ofLines (as ++ bs) := by rw [hb]; rfl
    rw [List.cons_append, this, ih]
    simp [ended]

theorem newline_notMem_lines {t line : Text} (h : line ∈ t.lines) : newline ∉ line := by
  induction t generalizing line with
  | nil =>
    rw [lines, List.mem_singleton] at h
    simp [h]
  | cons u t ih =>
    unfold lines at h
    split at h
    · rcases List.mem_cons.1 h with rfl | h
      · simp
      · exact ih h
    · rename_i hu
      cases hl : lines t with
      | nil => exact absurd hl (lines_ne_nil t)
      | cons first rest =>
        rw [hl] at h ih
        rcases List.mem_cons.1 h with rfl | h
        · have := ih List.mem_cons_self
          simp [Ne.symm hu, this]
        · exact ih (List.mem_cons_of_mem _ h)

/-! ## The index -/

theorem nearestLine_of_lt {t : Text} {i : Nat} (h : i < t.lineCount) : t.nearestLine i = i := by
  unfold nearestLine nearestOf
  omega

theorem lineStart_nearestLine (t : Text) (line : Int) :
    t.lineStart (t.nearestLine line : Nat) = t.lineStart line := by
  rw [lineStart_eq_getD, lineStart_eq_getD, nearestLine_of_lt (t.nearestLine_lt line)]

theorem lineText_nearestLine (t : Text) (line : Int) :
    t.lineText (t.nearestLine line : Nat) = t.lineText line := by
  rw [lineText_eq_drop, lineText_eq_drop, nearestLine_of_lt (t.nearestLine_lt line)]

theorem lineStart_eq {t : Text} {i : Nat} (h : i < t.lineCount) :
    t.lineStart i = (ended (t.lines.take i)).length := by
  have hi : i < t.lines.length := by rwa [← lineCount_eq_length_lines]
  rw [lineStart_eq_getD, nearestLine_of_lt h, List.getD_eq_getElem?_getD, lineStarts_eq, startsFrom_getElem? _ _ _ hi]
  simp

/-- A text around its line `i`. -/
theorem eq_ended_append {t line : Text} {i : Nat} (h : t.lines[i]? = some line) :
    t = ended (t.lines.take i) ++ ofLines (t.lines.drop i) ∧
      (i + 1 = t.lineCount ∧ ofLines (t.lines.drop i) = line ∨
        i + 1 < t.lineCount ∧ ∃ after, ofLines (t.lines.drop i) = line ++ newline :: after) := by
  obtain ⟨hi, hline⟩ := List.getElem?_eq_some_iff.1 h
  have hdrop : t.lines.drop i = line :: t.lines.drop (i + 1) := by
    rw [List.drop_eq_getElem_cons hi, hline]
  constructor
  · have hne : t.lines.drop i ≠ [] := by simp [hdrop]
    rw [← ofLines_append hne, List.take_append_drop, ofLines_lines]
  · rw [lineCount_eq_length_lines]
    rcases Nat.lt_or_ge (i + 1) t.lines.length with hlt | hge
    · refine .inr ⟨hlt, ofLines (t.lines.drop (i + 1)), ?_⟩
      obtain ⟨next, rest, hn⟩ := List.exists_cons_of_ne_nil
        (show t.lines.drop (i + 1) ≠ [] by simpa using hlt)
      rw [hdrop, hn]
      rfl
    · refine .inl ⟨by omega, ?_⟩
      rw [hdrop, List.drop_eq_nil_of_le hge]
      rfl

theorem lineText_eq {t line : Text} {i : Nat} (h : t.lines[i]? = some line) :
    t.lineText i = line := by
  obtain ⟨hi, -⟩ := List.getElem?_eq_some_iff.1 h
  have hi' : i < t.lineCount := by rwa [lineCount_eq_length_lines]
  have hstart : t.lineStarts[i]? = some (ended (t.lines.take i)).length := by
    rw [lineStarts_eq, startsFrom_getElem? _ _ _ hi, Nat.zero_add]
  obtain ⟨ht, hafter⟩ := eq_ended_append h
  have hnext := ended_take_succ h
  generalize ended (t.lines.take i) = before at ht hstart hnext
  rw [lineText_eq_drop, nearestLine_of_lt hi', List.getD_eq_getElem?_getD, hstart]
  dsimp only [Option.getD_some]
  rcases hafter with ⟨hlast, hafter⟩ | ⟨hlt, after, hafter⟩
  · have hnone : t.lineStarts[i + 1]? = none := by
      rw [lineStarts_eq, List.getElem?_eq_none_iff, length_startsFrom, ← lineCount_eq_length_lines]
      omega
    rw [hnone]
    dsimp only
    rw [hafter] at ht
    rw [ht, List.drop_left]
  · have hsome : t.lineStarts[i + 1]? = some (before.length + line.length + 1) := by
      rw [lineStarts_eq, startsFrom_getElem? _ _ _ (by rwa [← lineCount_eq_length_lines]),
        hnext, List.length_append, List.length_append, List.length_singleton, Nat.zero_add,
        Nat.add_assoc]
    rw [hsome]
    dsimp only
    rw [hafter, ← List.append_assoc] at ht
    rw [Nat.add_sub_cancel, ht, List.take_left' List.length_append, List.drop_left]

theorem exists_ended_eq {ls : List Text} (h : ls ≠ []) : ∃ p, ended ls = p ++ [newline] := by
  rw [← List.dropLast_concat_getLast h]
  exact ⟨ended ls.dropLast ++ ls.getLast h, by simp [ended]⟩

/-- **A line in its text.** Before it nothing stands, or a text that ends in a line feed; after it
nothing, or a text that begins with one. -/
theorem exists_line (t : Text) (line : Int) :
    ∃ before after, t = before ++ t.lineText line ++ after ∧
      t.lineStart line = before.length ∧
      (t.nearestLine line = 0 ∧ before = [] ∨
        0 < t.nearestLine line ∧ ∃ p, before = p ++ [newline]) ∧
      (t.nearestLine line + 1 = t.lineCount ∧ after = [] ∨
        t.nearestLine line + 1 < t.lineCount ∧ ∃ s, after = newline :: s) ∧
      newline ∉ t.lineText line := by
  have hlt := t.nearestLine_lt line
  obtain ⟨l, hl⟩ : ∃ l, t.lines[t.nearestLine line]? = some l :=
    ⟨_, List.getElem?_eq_getElem (by rwa [← lineCount_eq_length_lines])⟩
  have htext : t.lineText line = l := by rw [← lineText_nearestLine, lineText_eq hl]
  have hstart : t.lineStart line = (ended (t.lines.take (t.nearestLine line))).length := by
    rw [← lineStart_nearestLine, lineStart_eq hlt]
  obtain ⟨ht, hafter⟩ := eq_ended_append hl
  have hbefore : t.nearestLine line = 0 ∧ ended (t.lines.take (t.nearestLine line)) = [] ∨
      0 < t.nearestLine line ∧ ∃ p, ended (t.lines.take (t.nearestLine line)) = p ++ [newline] := by
    rcases Nat.eq_zero_or_pos (t.nearestLine line) with h0 | hpos
    · exact .inl ⟨h0, by rw [h0]; rfl⟩
    · refine .inr ⟨hpos, exists_ended_eq ?_⟩
      simp only [ne_eq, List.take_eq_nil_iff, not_or]
      exact ⟨by omega, t.lines_ne_nil⟩
  have hmem : newline ∉ l := newline_notMem_lines (List.mem_of_getElem? hl)
  rw [htext, hstart]
  generalize ended (t.lines.take (t.nearestLine line)) = before at ht hbefore
  rcases hafter with ⟨hlast, hafter⟩ | ⟨hnext, s, hafter⟩
  · exact ⟨before, [], by rw [← hafter, List.append_nil]; exact ht, rfl, hbefore,
      .inl ⟨hlast, rfl⟩, hmem⟩
  · exact ⟨before, newline :: s, by rw [List.append_assoc, ← hafter]; exact ht, rfl, hbefore,
      .inr ⟨hnext, s, rfl⟩, hmem⟩

/-! ## The place of a line -/

theorem nearestLine_lineAt (t : Text) (o : Int) : t.nearestLine (t.lineAt o) = t.lineAt o :=
  nearestLine_of_lt (t.lineAt_lt o)

theorem lineStart_le_lineEnd (t : Text) (line : Int) : t.lineStart line ≤ t.lineEnd line := by
  unfold lineEnd
  omega

theorem lineEnd_le_length (t : Text) (line : Int) : t.lineEnd line ≤ t.length := by
  obtain ⟨before, after, ht, hs, -⟩ := t.exists_line line
  have := congrArg List.length ht
  simp only [List.length_append] at this
  unfold lineEnd
  omega

theorem lineStart_le_length (t : Text) (line : Int) : t.lineStart line ≤ t.length :=
  Int.le_trans (t.lineStart_le_lineEnd line) (t.lineEnd_le_length line)

theorem lineEnd_nonneg (t : Text) (line : Int) : 0 ≤ t.lineEnd line :=
  Int.le_trans (t.lineStart_nonneg line) (t.lineStart_le_lineEnd line)

theorem lineStart_pos {t : Text} {line : Int} (h : 0 < t.nearestLine line) :
    0 < t.lineStart line := by
  obtain ⟨before, after, -, hs, hbefore, -⟩ := t.exists_line line
  rcases hbefore with ⟨h0, -⟩ | ⟨-, p, rfl⟩
  · omega
  · rw [hs, List.length_append, List.length_singleton]
    omega

end Text

end ModalEditor
