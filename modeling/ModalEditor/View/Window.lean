import ModalEditor.Modal.Interpreter
import ModalEditor.Number.Decimal
import ModalEditor.View.Element
import ModalEditor.View.Segment

/-!
# The window on a text

A window shows the lines from `top` on, each with its number and its segments. `Window.follow` scrolls
just enough to keep the cursor's line in the window; it counts at double precision, which is exact for
every text with fewer than 2⁵³ lines.
-/

namespace ModalEditor

namespace Window

/-- The first line shown after scrolling no further than the cursor's line demands. -/
def follow (top cursorLine height : Int) : Int :=
  let rows := max 1 height
  if cursorLine < top then cursorLine
  else if Precision.round (top + rows) ≤ cursorLine then
    Precision.round (Precision.round (cursorLine - rows) + 1)
  else top

/-- Among the lines of a text scrolling is exact. -/
theorem follow_eq {top cursorLine : Int} (height : Int) (h : 0 ≤ top) (h' : 0 ≤ cursorLine)
    (hlt : cursorLine < Precision.limit) :
    follow top cursorLine height =
      if cursorLine < top then cursorLine
      else if top + max 1 height ≤ cursorLine then cursorLine - max 1 height + 1
      else top := by
  have hlimit := Precision.limit_eq
  unfold follow
  split
  · rfl
  · by_cases hs : top + max 1 height ≤ Precision.limit
    · simp only [Precision.round_of_le (i := top + max 1 height) (by omega)]
      split
      · rw [Precision.round_of_le (i := cursorLine - max 1 height) (by omega),
          Precision.round_of_le (by omega)]
      · rfl
    · have := Precision.le_round (i := top + max 1 height) (by omega)
      rw [if_neg (by omega), if_neg (by omega)]

/-- A segment drawn: the caret inverted or underlined, the selection in blue. -/
def segment (style : CursorStyle) (s : Segment) : Element :=
  match s.kind, style with
  | .caret, .block => .label [("inverse", .flag true)] s.text
  | .caret, .bar => .label [("color", .word "cyan"), ("underline", .flag true)] s.text
  | .selected, _ => .label [("backgroundColor", .word "blue")] s.text
  | .plain, _ => .label [] s.text

/-- A line's number, right-aligned to a width, and a blank. -/
def gutter (width : Nat) (line : Int) : Text :=
  let number := (Decimal.ofInt (line + 1)).toText
  List.replicate (width - number.length) space ++ number ++ [space]

/-- The segments of a line of a text. -/
def segmentsOf (t : Text) (c : Cursor) (line : Int) : List Segment :=
  Segment.ofLine
    { text := t.lineText line
      start := t.lineStart line
      cursor := c
      showCaret := line = (t.lineAt c.position : Int) }

/-- One line of the window. -/
def row (t : Text) (c : Cursor) (style : CursorStyle) (line : Int) : Element :=
  let segments := segmentsOf t c line
  let color := if line = (t.lineAt c.position : Int) then "yellow" else "gray"
  .box []
    [.label [("color", .word color)] (gutter (Text.ofNat t.lineCount).length line),
      .node .text [("wrap", .word "truncate")]
        (if segments.isEmpty then [.literal [space]] else segments.map (segment style))]

/-- The lines shown: from `top` on, as many as fit and as there are. -/
def shown (t : Text) (top height : Int) : List Int :=
  (List.range (min (t.lineCount : Int) (top + height) - top).toNat).map fun i : Nat => top + (i : Int)

/-- The lines shown are those that both fit and exist. -/
theorem mem_shown_iff {t : Text} {top height line : Int} :
    line ∈ shown t top height ↔ top ≤ line ∧ line < t.lineCount ∧ line < top + height := by
  simp only [shown, List.mem_map, List.mem_range]
  constructor
  · rintro ⟨i, hi, rfl⟩
    omega
  · intro h
    exact ⟨(line - top).toNat, by omega, by omega⟩

/-- The window. -/
def render (t : Text) (c : Cursor) (top height : Int) (style : CursorStyle) : Element :=
  .box [("flexDirection", .word "column"), ("height", .number height), ("overflow", .word "hidden")]
    ((shown t top height).map (row t c style))

end Window

end ModalEditor
