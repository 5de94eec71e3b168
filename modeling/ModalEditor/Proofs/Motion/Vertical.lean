import Mathlib.Logic.Function.Iterate
import ModalEditor.Motion
import ModalEditor.Proofs.Text.Neighbours

/-!
# Moves by lines

A vertical motion goes one line, a page so many lines at once, and both keep the column where the line
is long enough. `Cursor.StandsAt` says on which line and in which column a cursor is: that is all a
move by lines asks about it (`Cursor.StandsAt.page_eq`), and what it leads to (`Cursor.page_standsAt`).

A motion is a page of one line (`Cursor.move_eq_page`), on the first and the last line as well. So a
page is as many motions, as long as no line between shortens the column
(`Cursor.page_eq_iterate_move`), and the page back returns if the column was kept:
`Cursor.moved_by_lines`.
-/

namespace ModalEditor

/-! ## Columns -/

namespace Text

variable {t : Text} {o line column : Int}

theorem coe_nearestLine (t : Text) (line : Int) :
    (t.nearestLine line : Int) = max 0 (min line ((t.lineCount : Int) - 1)) := by
  unfold nearestLine nearestOf
  omega

theorem atColumn_nearestLine (t : Text) (line column : Int) :
    t.atColumn (t.nearestLine line) column = t.atColumn line column := by
  unfold atColumn
  rw [lineStart_nearestLine, lineText_nearestLine]

theorem atColumn_congr {line' : Int} (h : t.nearestLine line = t.nearestLine line')
    (column : Int) : t.atColumn line column = t.atColumn line' column := by
  rw [← atColumn_nearestLine, h, atColumn_nearestLine]

theorem atColumn_mem (t : Text) (line : Int) (h : 0 ≤ column) :
    t.lineStart line ≤ t.atColumn line column ∧ t.atColumn line column ≤ t.lineEnd line := by
  unfold atColumn lineEnd
  omega

theorem lineAt_atColumn (h : 0 ≤ column) : t.lineAt (t.atColumn line column) = t.nearestLine line :=
  lineAt_eq_nearestLine (t.atColumn_mem line h).1 (t.atColumn_mem line h).2

theorem columnOf_atColumn (h : 0 ≤ column) :
    t.columnOf (t.atColumn line column) = min column (t.lineText line).length := by
  unfold columnOf
  rw [lineAt_atColumn h, lineStart_nearestLine]
  unfold atColumn
  omega

theorem atColumn_columnOf (h : 0 ≤ o) (h' : o ≤ t.length) :
    t.atColumn (t.lineAt o) (t.columnOf o) = o := by
  have hend := (t.clamp_mem_line o).2
  rw [clamp_of_mem h h'] at hend
  unfold lineEnd at hend
  unfold atColumn columnOf
  omega

theorem columnOf_nonneg (h : 0 ≤ o) (h' : o ≤ t.length) : 0 ≤ t.columnOf o := by
  have hstart := (t.clamp_mem_line o).1
  rw [clamp_of_mem h h'] at hstart
  unfold columnOf
  omega

end Text

/-! ## One way or the other -/

namespace Direction

/-- The motion one line that way. -/
def motion : Direction → Motion
  | .up => .up
  | .down => .down

/-- The line index so many lines that way, which need not be a line. -/
def away (d : Direction) (line step : Int) : Int :=
  match d with
  | .up => line - step
  | .down => line + step

end Direction

/-- A line strictly between two others, in either order. -/
def Between (first last i : Int) : Prop := first < i ∧ i < last ∨ last < i ∧ i < first

theorem Motion.target_motion (t : Text) (o : Int) (d : Direction) :
    d.motion.target t o =
      t.atColumn (d.away (t.lineAt (t.clamp o)) 1) (t.columnOf (t.clamp o)) := by
  have hhere := Text.atColumn_columnOf (t.clamp_nonneg o) (t.clamp_le o)
  have hlt := t.lineAt_lt (t.clamp o)
  cases d with
  | up =>
    show (if (t.lineAt (t.clamp o) : Int) ≤ 0 then t.clamp o
      else t.atColumn (t.lineAt (t.clamp o) - 1) (t.columnOf (t.clamp o))) = _
    split
    · refine hhere.symm.trans (Text.atColumn_congr ?_ _)
      simp only [Direction.away, Text.nearestLine, Text.nearestOf]
      omega
    · rfl
  | down =>
    show (if (t.lineCount : Int) - 1 ≤ t.lineAt (t.clamp o) then t.clamp o
      else t.atColumn (t.lineAt (t.clamp o) + 1) (t.columnOf (t.clamp o))) = _
    split
    · refine hhere.symm.trans (Text.atColumn_congr ?_ _)
      simp only [Direction.away, Text.nearestLine, Text.nearestOf]
      omega
    · rfl

/-! ## Where a cursor stands -/

/-- A cursor without a selection, on a line and in a column of a text. -/
structure Cursor.StandsAt (x : Cursor) (t : Text) (line column : Int) : Prop where
  unselected : x = .collapsed x.position
  nonneg : 0 ≤ x.position
  le : x.position ≤ t.length
  line : (t.lineAt x.position : Int) = line
  column : t.columnOf x.position = column

namespace Cursor

variable {t : Text} {x : Cursor} {d : Direction} {line column n : Int}

theorem standsAt_atColumn (t : Text) (line : Int) (h : 0 ≤ column) :
    (collapsed (t.atColumn line column)).StandsAt t (t.nearestLine line)
      (min column (t.lineText line).length) := by
  obtain ⟨hstart, hend⟩ := t.atColumn_mem line h
  have h0 := t.lineStart_nonneg line
  have hlength := t.lineEnd_le_length line
  exact ⟨rfl, Int.le_trans h0 hstart, Int.le_trans hend hlength,
    congrArg _ (Text.lineAt_atColumn h), Text.columnOf_atColumn h⟩

theorem page_eq (x : Cursor) (t : Text) (n : Int) (d : Direction) :
    x.page t n d = collapsed (t.atColumn (d.away (t.lineAt (t.clamp x.position)) (max 1 n))
      (t.columnOf (t.clamp x.position))) := by
  cases d <;> rfl

theorem StandsAt.page_eq (h : x.StandsAt t line column) :
    x.page t n d = collapsed (t.atColumn (d.away line (max 1 n)) column) := by
  rw [Cursor.page_eq, Text.clamp_of_mem h.nonneg h.le, h.line, h.column]

theorem page_standsAt (x : Cursor) (t : Text) (n : Int) (d : Direction) :
    let near : Int := t.nearestLine (d.away (t.lineAt (t.clamp x.position)) (max 1 n))
    (x.page t n d).StandsAt t near
      (min (t.columnOf (t.clamp x.position)) (t.lineText near).length) := by
  intro near
  rw [page_eq, t.lineText_nearestLine]
  exact standsAt_atColumn t _ (Text.columnOf_nonneg (t.clamp_nonneg _) (t.clamp_le _))

/-! ## Motions and pages -/

/-- **A motion is a page of one line**, also where it stays. -/
theorem move_eq_page (x : Cursor) (t : Text) (d : Direction) :
    x.move t d.motion false = x.page t 1 d := by
  have hmove : x.move t d.motion false = collapsed (d.motion.target t x.position) := rfl
  rw [hmove, Motion.target_motion, page_eq, Int.max_self]

/-- From the line nearest to so many lines further, one line more leads to the nearest of the next.
Unless it is the same one, the line is passed over then. -/
theorem nearestLine_away_succ (hline : 0 ≤ line ∧ line < t.lineCount) (k : Nat) :
    let here : Int := t.nearestLine (d.away line (k + 1))
    let next : Int := t.nearestLine (d.away line (k + 2))
    t.nearestLine (d.away here 1) = next ∧ (here = next ∨ Between line next here) ∧
      ∀ i, Between line here i → Between line next i := by
  intro here next
  have hhere : here = _ := t.coe_nearestLine _
  have hnext : next = _ := t.coe_nearestLine _
  have hstep : _ = _ := t.coe_nearestLine (d.away here 1)
  unfold Between
  cases d with
  | up =>
    simp only [Direction.away] at hhere hnext hstep ⊢
    refine ⟨by omega, by omega, fun i hi => by omega⟩
  | down =>
    simp only [Direction.away] at hhere hnext hstep ⊢
    refine ⟨by omega, by omega, fun i hi => by omega⟩

/-- **A page is so many motions**, if no line between the first and the last shortens the column. -/
theorem iterate_move (x : Cursor) (k : Nat) (hline : (t.lineAt (t.clamp x.position) : Int) = line)
    (hcolumn : t.columnOf (t.clamp x.position) = column)
    (hbetween : ∀ i, Between line (t.nearestLine (d.away line (k + 1))) i →
      column ≤ (t.lineText i).length) :
    (·.move t d.motion false)^[k + 1] x =
      collapsed (t.atColumn (d.away line (k + 1)) column) := by
  have h0 : 0 ≤ column := hcolumn ▸ Text.columnOf_nonneg (t.clamp_nonneg _) (t.clamp_le _)
  have hlt : 0 ≤ line ∧ line < t.lineCount := by
    have := t.lineAt_lt (t.clamp x.position)
    omega
  induction k with
  | zero =>
    rw [Nat.zero_add, Function.iterate_one, move_eq_page, page_eq, hline, hcolumn]
    rfl
  | succ k ih =>
    obtain ⟨hnext, hpassed, hmono⟩ := nearestLine_away_succ (d := d) hlt k
    rw [show ((k + 1 : Nat) : Int) + 1 = k + 2 by omega] at hbetween ⊢
    rw [Function.iterate_succ_apply', ih fun i hi => hbetween i (hmono i hi), move_eq_page,
      (standsAt_atColumn t _ h0).page_eq, Int.max_self, Text.atColumn_congr (Int.ofNat.inj hnext)]
    congr 1
    unfold Text.atColumn
    rw [← t.lineText_nearestLine (d.away line (k + 1))]
    rcases hpassed with hsame | hpassed
    · -- it stays on the line, where the column is cut already
      rw [hsame, t.lineText_nearestLine]
      omega
    · rw [Int.min_eq_left (hbetween _ hpassed)]

theorem page_eq_iterate_move (x : Cursor) (t : Text) (n : Int) (d : Direction)
    (hbetween : ∀ i,
      let line : Int := t.lineAt (t.clamp x.position)
      Between line (t.nearestLine (d.away line (max 1 n))) i →
        t.columnOf (t.clamp x.position) ≤ (t.lineText i).length) :
    x.page t n d = (·.move t d.motion false)^[(max 1 n).toNat] x := by
  obtain ⟨k, hk⟩ : ∃ k : Nat, max 1 n = k + 1 := ⟨(max 1 n).toNat - 1, by omega⟩
  rw [hk] at hbetween
  rw [page_eq, hk, show ((k : Int) + 1).toNat = k + 1 by omega, x.iterate_move k rfl rfl hbetween]

/-- A page down and a page up end where they began, if there are so many lines and the column is
kept. -/
theorem page_down_up (x : Cursor)
    (hline : (t.lineAt (t.clamp x.position) : Int) + max 1 n ≤ (t.lineCount : Int) - 1)
    (hcolumn : t.columnOf (t.clamp x.position) ≤
      (t.lineText (t.lineAt (t.clamp x.position) + max 1 n)).length) :
    (x.page t n .down).page t n .up = .collapsed (t.clamp x.position) := by
  have hnear : (t.nearestLine (Direction.down.away (t.lineAt (t.clamp x.position)) (max 1 n)) : Int) =
      t.lineAt (t.clamp x.position) + max 1 n := by
    rw [Text.coe_nearestLine]
    simp only [Direction.away]
    omega
  have hstands := x.page_standsAt t n .down
  dsimp only at hstands
  rw [hnear, Int.min_eq_left hcolumn] at hstands
  rw [hstands.page_eq, Direction.away, Int.add_sub_cancel,
    Text.atColumn_columnOf (t.clamp_nonneg _) (t.clamp_le _)]

theorem move_select_last (x : Cursor)
    (h : (t.lineCount : Int) - 1 ≤ t.lineAt (t.clamp x.position)) :
    x.move t .down true = ⟨t.length, t.clamp x.anchor⟩ := by
  simp [move, extend, h]

theorem move_select_first (x : Cursor) (h : (t.lineAt (t.clamp x.position) : Int) ≤ 0) :
    x.move t .up true = ⟨0, t.clamp x.anchor⟩ := by
  simp only [move, extend, reduceCtorEq, false_and, if_false, true_and, if_true, if_pos h]

/-- **Moves by lines.** A page goes down or up as many lines as it has, at least one, or to the last
or the first line, in the same column or at the end of a shorter line. A motion is a page of one line,
and a page is so many motions as long as no line passed over is shorter than the column. A page up
takes a page down back if there were so many lines and the last one was not shorter. With the anchor
kept, the motions on the last and the first line reach the ends of the text. -/
theorem moved_by_lines (t : Text) (x : Cursor) (n : Int) :
    let p := t.clamp x.position
    let l : Int := t.lineAt p
    let c := t.columnOf p
    let s := max 1 n
    let last : Int := t.lineCount - 1
    let length (line : Int) : Int := (t.lineText line).length
    let below := min (l + s) last
    let above := max (l - s) 0
    ((x.page t n .down).StandsAt t below (min c (length below)) ∧
      (x.page t n .up).StandsAt t above (min c (length above))) ∧
    (x.move t .down false = x.page t 1 .down ∧ x.move t .up false = x.page t 1 .up) ∧
    ((∀ i, l < i → i < below → c ≤ length i) →
      x.page t n .down = (·.move t .down false)^[s.toNat] x) ∧
    ((∀ i, above < i → i < l → c ≤ length i) →
      x.page t n .up = (·.move t .up false)^[s.toNat] x) ∧
    (l + s ≤ last → c ≤ length (l + s) → (x.page t n .down).page t n .up = .collapsed p) ∧
    (l + 1 ≤ last → c ≤ length (l + 1) →
      (x.move t .down false).move t .up false = .collapsed p) ∧
    (l = last → x.move t .down true = ⟨t.length, t.clamp x.anchor⟩) ∧
    (l = 0 → x.move t .up true = ⟨0, t.clamp x.anchor⟩) := by
  intro p l c s last length below above
  have hlt := t.lineAt_lt p
  have hbelow : (t.nearestLine (Direction.down.away l s) : Int) = below := by
    rw [Text.coe_nearestLine, Direction.away]
    omega
  have habove : (t.nearestLine (Direction.up.away l s) : Int) = above := by
    rw [Text.coe_nearestLine, Direction.away]
    omega
  have hle : l ≤ below ∧ above ≤ l := by omega
  refine ⟨⟨?_, ?_⟩, ⟨move_eq_page x t .down, move_eq_page x t .up⟩, fun h => ?_, fun h => ?_,
    x.page_down_up, fun hl hc => ?_, fun hl => x.move_select_last (Int.le_of_eq hl.symm),
    fun hl => x.move_select_first (Int.le_of_eq hl)⟩
  · rw [← hbelow]
    exact x.page_standsAt t n .down
  · rw [← habove]
    exact x.page_standsAt t n .up
  · refine x.page_eq_iterate_move t n .down fun i hi => ?_
    rcases (hbelow ▸ hi : Between l below i) with hi | hi
    · exact h i hi.1 hi.2
    · omega
  · refine x.page_eq_iterate_move t n .up fun i hi => ?_
    rcases (habove ▸ hi : Between l above i) with hi | hi
    · omega
    · exact h i hi.1 hi.2
  · have hdown : x.move t .down false = x.page t 1 .down := move_eq_page x t .down
    have hup := move_eq_page (x.page t 1 .down) t .up
    rw [hdown]
    exact hup.trans (x.page_down_up hl hc)

/-- Over a longer line and back: in "abc", "defg", "hij" a page of two lines from column 2 is two
motions, and the page up takes it back. -/
theorem moved_by_lines_over_longer_line :
    let t : Text := [97, 98, 99, 10, 100, 101, 102, 103, 10, 104, 105, 106]
    let x : Cursor := ⟨2, 7⟩
    (x.page t 2 .down).StandsAt t 2 2 ∧
      x.page t 2 .down = (·.move t .down false)^[2] x ∧
      (x.page t 2 .down).page t 2 .up = .collapsed 2 ∧
      (x.move t .down false).move t .up false = .collapsed 2 ∧
      (x.move t .up true = ⟨0, 7⟩) := by
  intro t x
  obtain ⟨⟨hstands, -⟩, -, hmotions, -, hback, hback', -, hfirst⟩ := moved_by_lines t x 2
  have hline : min ((t.lineAt (t.clamp x.position) : Int) + max 1 2) ((t.lineCount : Int) - 1) = 2 := by
    decide +kernel
  have hcolumn : min (t.columnOf (t.clamp x.position)) ((t.lineText 2).length : Int) = 2 := by
    decide +kernel
  dsimp only at hstands
  rw [hline, hcolumn] at hstands
  refine ⟨hstands, hmotions fun i hi hi' => ?_, hback (by decide +kernel) (by decide +kernel),
    hback' (by decide +kernel) (by decide +kernel), hfirst (by decide +kernel)⟩
  have hlast : i < 2 := Int.lt_of_lt_of_le hi' (Int.le_of_eq hline)
  have hfirst : 0 < i := Int.lt_of_le_of_lt (by decide +kernel) hi
  obtain rfl : i = 1 := by omega
  decide +kernel

/-- A page of no lines goes down all the same, and passes no line over; no motions go nowhere. -/
theorem page_of_no_lines_moves :
    let t : Text := [newline]
    let x : Cursor := .collapsed 0
    let l : Int := t.lineAt 0
    (∀ i, l < i → i < min (l + max 1 0) ((t.lineCount : Int) - 1) →
      t.columnOf 0 ≤ (t.lineText i).length) ∧
      x.page t 0 .down ≠ (·.move t .down false)^[0] x := by
  intro t x l
  have hl : l = 0 := by decide +kernel
  refine ⟨fun i hi hi' => ?_, by decide +kernel⟩
  omega

end Cursor

end ModalEditor
