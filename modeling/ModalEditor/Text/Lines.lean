import ModalEditor.Text.Basic

/-!
# Lines of a text

A text of `n` line feeds has `n + 1` lines, the last of them possibly empty. Line questions are
answered from `Text.lineStarts`, the ascending offsets at which lines begin, where the line of an
offset is found by halving; `Text.lines` is the list of the lines themselves. A line index out of
range stands for the nearest line, and an offset out of range for the nearest offset.
-/

namespace ModalEditor

namespace Text

/-! ## The lines as a list -/

/-- The text cut at its line feeds. -/
def lines : Text → List Text
  | [] => [[]]
  | u :: t =>
    if u = newline then [] :: lines t
    else match lines t with
      | [] => [[u]]
      | line :: rest => (u :: line) :: rest

/-- Lines joined by line feeds. -/
def ofLines : List Text → Text
  | [] => []
  | [line] => line
  | line :: rest => line ++ newline :: ofLines rest

/-! ## The line index -/

/-- Where lines begin in a text that itself begins at `start`, its own first line left out. -/
def breaksAfter (start : Nat) : Text → List Nat
  | [] => []
  | u :: t => if u = newline then (start + 1) :: breaksAfter (start + 1) t else breaksAfter (start + 1) t

/-- The offsets at which lines begin. -/
def lineStarts (t : Text) : List Nat := 0 :: breaksAfter 0 t

/-- The number of lines, at least one. -/
def lineCount (t : Text) : Nat := t.lineStarts.length

/-- Of the lines `low` to `high` the last one that begins at or before an offset, found by halving;
line `low` is taken to do so. -/
@[semireducible] def lastStart (starts : List Nat) (o : Int) (low high : Nat) : Nat :=
  if low < high then
    -- rounded up, so that the upper half is smaller than the whole
    let middle := (low + high + 1) / 2
    if (starts.getD middle 0 : Nat) ≤ o then lastStart starts o middle high
    else lastStart starts o low (middle - 1)
  else low
termination_by high - low

/-- The line nearest to a line index, among so many lines. -/
def nearestOf (count : Nat) (line : Int) : Nat := (max 0 (min line ((count : Int) - 1))).toNat

/-- The line nearest to a line index. -/
def nearestLine (t : Text) (line : Int) : Nat := nearestOf t.lineCount line

/-! An index may be kept and asked more than once; a text makes a new one for every question. -/

/-- The line that holds an offset, by an index: the last one that begins at or before it. -/
def lineAtBy (t : Text) (starts : List Nat) (o : Int) : Nat :=
  lastStart starts (t.clamp o) 0 (starts.length - 1)

/-- Where a line begins, by an index. -/
def lineStartBy (starts : List Nat) (line : Int) : Int :=
  (starts.getD (nearestOf starts.length line) 0 : Nat)

/-- A line without its separator, by an index. -/
def lineTextBy (t : Text) (starts : List Nat) (line : Int) : Text :=
  let start := starts.getD (nearestOf starts.length line) 0
  match starts[nearestOf starts.length line + 1]? with
  | some next => (t.take (next - 1)).drop start
  | none => t.drop start

/-- The line that holds an offset. -/
def lineAt (t : Text) (o : Int) : Nat := t.lineAtBy t.lineStarts o

/-- Where a line begins. -/
def lineStart (t : Text) (line : Int) : Int := lineStartBy t.lineStarts line

/-- A line without its separator. -/
def lineText (t : Text) (line : Int) : Text := t.lineTextBy t.lineStarts line

/-- Where a line ends, before its separator. -/
def lineEnd (t : Text) (line : Int) : Int := t.lineStart line + (t.lineText line).length

/-- The distance of an offset from the beginning of its line. -/
def columnOf (t : Text) (o : Int) : Int := o - t.lineStart (t.lineAt o)

/-- The offset of a column on a line, or the line's end if the line is shorter. -/
def atColumn (t : Text) (line column : Int) : Int :=
  t.lineStart line + min column (t.lineText line).length

/-- The last line that counts in line-wise edits: the empty line after a final line feed belongs to
the line before it. -/
def lastFullLine (t : Text) : Nat :=
  let last := t.lineCount - 1
  if 0 < last ∧ t.lineText last = [] then last - 1 else last

/-! ## Laws -/

theorem lineCount_pos (t : Text) : 0 < t.lineCount := by
  simp [lineCount, lineStarts]

theorem lineStart_nonneg (t : Text) (line : Int) : 0 ≤ t.lineStart line :=
  Int.natCast_nonneg _

theorem nearestLine_lt (t : Text) (line : Int) : t.nearestLine line < t.lineCount := by
  have := t.lineCount_pos
  unfold nearestLine nearestOf
  omega

theorem lineStart_eq_getD (t : Text) (line : Int) :
    t.lineStart line = (t.lineStarts.getD (t.nearestLine line) 0 : Nat) := rfl

theorem lineText_eq_drop (t : Text) (line : Int) :
    t.lineText line = match t.lineStarts[t.nearestLine line + 1]? with
      | some next => (t.take (next - 1)).drop (t.lineStarts.getD (t.nearestLine line) 0)
      | none => t.drop (t.lineStarts.getD (t.nearestLine line) 0) := rfl

theorem lines_ne_nil (t : Text) : t.lines ≠ [] := by
  cases t with
  | nil => simp [lines]
  | cons u t =>
    unfold lines
    split
    · simp
    · split <;> simp

/-- Joining the lines of a text gives the text back. -/
theorem ofLines_lines (t : Text) : ofLines t.lines = t := by
  induction t with
  | nil => rfl
  | cons u t ih =>
    unfold lines
    split
    · rename_i h
      cases hl : lines t with
      | nil => exact absurd hl (lines_ne_nil t)
      | cons line rest => rw [hl] at ih; simp [ofLines, ih, h]
    · cases hl : lines t with
      | nil => exact absurd hl (lines_ne_nil t)
      | cons line rest =>
        rw [hl] at ih
        cases rest with
        | nil => simpa [ofLines] using ih
        | cons line' rest => simpa [ofLines] using ih

/-- There are as many line starts as lines. -/
theorem length_breaksAfter (start : Nat) (t : Text) :
    (breaksAfter start t).length + 1 = t.lines.length := by
  induction t generalizing start with
  | nil => rfl
  | cons u t ih =>
    unfold lines breaksAfter
    split
    · simp [ih]
    · cases hl : lines t with
      | nil => exact absurd hl (lines_ne_nil t)
      | cons line rest => rw [ih, hl]; simp

/-- The number of lines is the length of the list of lines. -/
theorem lineCount_eq_length_lines (t : Text) : t.lineCount = t.lines.length := by
  simp [lineCount, lineStarts, ← length_breaksAfter 0 t]

end Text

end ModalEditor
