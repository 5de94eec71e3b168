import Mathlib.Data.List.GetD
import ModalEditor.Text.Lines

/-!
# Finding a line by halving

`Text.lastStart` finds the line that holds an offset by halving the index of the lines. What it may
rely on is a `Text.Window`: the lines after it begin behind the offset, and its first line does not.
Every step narrows the window (`Text.Window.closes`), because the index ascends. So the line found is
as many lines down as line feeds are passed: `Text.lineAt_eq_count`.
-/

namespace ModalEditor

namespace Text

/-! ## The index ascends -/

theorem lt_of_mem_breaksAfter {s b : Nat} {t : Text} (h : b ∈ breaksAfter s t) : s < b := by
  induction t generalizing s with
  | nil => cases h
  | cons u t ih =>
    rw [breaksAfter] at h
    split at h
    · rcases List.mem_cons.1 h with rfl | h
      · exact Nat.lt_succ_self s
      · exact Nat.lt_of_succ_lt (ih h)
    · exact Nat.lt_of_succ_lt (ih h)

theorem pairwise_breaksAfter (s : Nat) (t : Text) : (breaksAfter s t).Pairwise (· < ·) := by
  induction t generalizing s with
  | nil => exact .nil
  | cons u t ih =>
    unfold breaksAfter
    split
    · exact .cons (fun _ hb => lt_of_mem_breaksAfter hb) (ih (s + 1))
    · exact ih (s + 1)

theorem pairwise_lineStarts (t : Text) : t.lineStarts.Pairwise (· < ·) :=
  .cons (fun _ hb => lt_of_mem_breaksAfter hb) (pairwise_breaksAfter 0 t)

theorem getD_lt_getD {starts : List Nat} (hs : starts.Pairwise (· < ·)) {i j : Nat} (h : i < j)
    (hj : j < starts.length) : starts.getD i 0 < starts.getD j 0 := by
  have hi : i < starts.length := Nat.lt_trans h hj
  rw [List.getD_eq_getElem _ _ hi, List.getD_eq_getElem _ _ hj]
  exact List.pairwise_iff_getElem.1 hs i j hi hj h

/-! ## Halving -/

/-- The line looked for is one of the lines `low` to `high`: line `low` begins at or before the
offset, and the lines after line `high` do not. -/
structure Window (starts : List Nat) (o : Int) (low high : Nat) : Prop where
  le : low ≤ high
  lt_length : high < starts.length
  starts_le : (starts.getD low 0 : Nat) ≤ o
  lt_starts : ∀ i, high < i → i < starts.length → o < (starts.getD i 0 : Nat)

section
variable {starts : List Nat} {o : Int} {low high : Nat} (hs : starts.Pairwise (· < ·))
include hs

/-- **The window closes** on the line looked for. -/
theorem Window.closes (h : Window starts o low high) :
    Window starts o (lastStart starts o low high) (lastStart starts o low high) := by
  fun_induction lastStart starts o low high with
  | case1 low high hlt middle hle ih =>
    have hmiddle : middle ≤ high := by omega
    exact ih ⟨hmiddle, h.lt_length, hle, h.lt_starts⟩
  | case2 low high hlt middle hgt ih =>
    have hmiddle : middle - 1 < high := by omega
    refine ih ⟨by omega, Nat.lt_trans hmiddle h.lt_length, h.starts_le, fun i hi hlength => ?_⟩
    -- the lines from the middle on begin no earlier than the middle one
    rcases Nat.eq_or_lt_of_le (show middle ≤ i by omega) with rfl | hi
    · exact Int.lt_of_not_ge hgt
    · have := getD_lt_getD hs hi hlength
      omega
  | case3 low high hge =>
    obtain rfl : low = high := Nat.le_antisymm h.le (Nat.le_of_not_lt hge)
    exact h

theorem Window.filter_eq {i : Nat} (h : Window starts o i i) :
    (starts.filter fun s : Nat => (s : Int) ≤ o) = starts.take (i + 1) := by
  have hupto : ∀ s ∈ starts.take (i + 1), decide ((s : Int) ≤ o) = true := by
    intro s hmem
    obtain ⟨j, hj, rfl⟩ := List.mem_take_iff_getElem.1 hmem
    have hstart := h.starts_le
    have hlength : j < starts.length := by omega
    rw [← List.getD_eq_getElem _ 0 hlength]
    rcases Nat.eq_or_lt_of_le (show j ≤ i by omega) with rfl | hlt
    · exact decide_eq_true hstart
    · have := getD_lt_getD hs hlt h.lt_length
      exact decide_eq_true (by omega)
  have hbehind : ∀ s ∈ starts.drop (i + 1), ¬ decide ((s : Int) ≤ o) = true := by
    intro s hmem
    obtain ⟨j, hj, rfl⟩ := List.mem_drop_iff_getElem.1 hmem
    rw [← List.getD_eq_getElem _ 0 (show i + 1 + j < starts.length by omega)]
    have := h.lt_starts (i + 1 + j) (by omega) (by omega)
    simp only [decide_eq_true_eq]
    omega
  calc starts.filter (fun s : Nat => (s : Int) ≤ o)
      = (starts.take (i + 1) ++ starts.drop (i + 1)).filter (fun s : Nat => (s : Int) ≤ o) := by
        rw [List.take_append_drop]
    _ = starts.take (i + 1) := by
        rw [List.filter_append, List.filter_eq_self.2 hupto, List.filter_eq_nil_iff.2 hbehind,
          List.append_nil]

end

/-- The line found begins at or before the offset, and the lines after it do not. -/
theorem window_lineAt (t : Text) (o : Int) :
    Window t.lineStarts (t.clamp o) (t.lineAt o) (t.lineAt o) := by
  have hfirst : ((t.lineStarts.getD 0 0 : Nat) : Int) ≤ t.clamp o := t.clamp_nonneg o
  exact Window.closes t.pairwise_lineStarts
    ⟨Nat.zero_le _, Nat.sub_one_lt_of_lt t.lineCount_pos, hfirst, fun i hi hlength => by omega⟩

theorem lineAt_lt (t : Text) (o : Int) : t.lineAt o < t.lineCount := (t.window_lineAt o).lt_length

/-! ## Counting -/

theorem length_filter_breaksAfter (s k : Nat) (t : Text) :
    ((breaksAfter s t).filter (· ≤ s + k)).length = (t.take k).count newline := by
  induction t generalizing s k with
  | nil => simp [breaksAfter]
  | cons u t ih =>
    cases k with
    | zero =>
      have hnone : (breaksAfter s (u :: t)).filter (· ≤ s + 0) = [] := by
        simp only [List.filter_eq_nil_iff, decide_eq_true_eq, Nat.not_le, Nat.add_zero]
        exact fun b hb => lt_of_mem_breaksAfter hb
      rw [hnone]
      rfl
    | succ k =>
      have hrest := ih (s + 1) k
      rw [Nat.add_right_comm, Nat.add_assoc] at hrest
      rw [breaksAfter, List.take_succ_cons, List.count_cons, ← hrest]
      by_cases hu : u = newline
      · simp [hu]
      · simp [hu]

/-- As many line feeds stand before an offset as lines before its line. -/
theorem lineAt_eq_count (t : Text) (o : Int) :
    t.lineAt o = (t.take (t.clamp o).toNat).count newline := by
  have hclamp : ((t.clamp o).toNat : Int) = t.clamp o := Int.toNat_of_nonneg (t.clamp_nonneg o)
  have hfound := congrArg List.length ((t.window_lineAt o).filter_eq t.pairwise_lineStarts)
  rw [List.length_take, Nat.min_eq_left (show t.lineAt o + 1 ≤ t.lineStarts.length from t.lineAt_lt o)]
    at hfound
  have hsplit : (t.lineStarts.filter fun s : Nat => (s : Int) ≤ t.clamp o) =
      0 :: (breaksAfter 0 t).filter (· ≤ 0 + (t.clamp o).toNat) := by
    rw [lineStarts, List.filter_cons_of_pos (by simpa using t.clamp_nonneg o)]
    congr 2
    funext b
    simp only [decide_eq_decide]
    omega
  rw [hsplit, List.length_cons, length_filter_breaksAfter] at hfound
  exact (Nat.succ.inj hfound).symm

theorem lineAt_mono (t : Text) {o o' : Int} (h : o ≤ o') : t.lineAt o ≤ t.lineAt o' := by
  have hclamp := t.clamp_mono h
  rw [lineAt_eq_count, lineAt_eq_count]
  exact (List.take_prefix_take_left (by omega)).count_le newline

theorem lt_of_lineAt_lt {t : Text} {o o' : Int} (h : t.lineAt o < t.lineAt o') : o < o' := by
  apply Int.not_le.1
  intro hle
  have := t.lineAt_mono hle
  omega

theorem lineAt_clamp (t : Text) (o : Int) : t.lineAt (t.clamp o) = t.lineAt o := by
  unfold lineAt lineAtBy
  rw [clamp_of_mem (t.clamp_nonneg o) (t.clamp_le o)]

end Text

end ModalEditor
