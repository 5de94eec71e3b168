import ModalEditor.Cursor

/-!
# Segments of a line

A line is drawn in runs: plain, selected, or the caret. It is cut at its ends, at the ends of the
selection and around the caret (`Segment.Line.cuts`); every part between two cuts is drawn in one way
(`Segment.Line.kindBetween`), and neighbouring parts that are drawn alike make one segment, except
that the caret stays by itself (`Segment.push`). The caret covers a whole character, unless the
selection ends inside it; at the end of a line it is drawn as one more blank.
-/

namespace ModalEditor

/-- How a run of a line is drawn. -/
inductive SegmentKind where
  | plain
  | selected
  | caret
deriving DecidableEq, Repr

/-- A run of a line. -/
structure Segment where
  kind : SegmentKind
  text : Text
deriving DecidableEq, Repr

namespace Segment

/-- A line as it is drawn: its text, where it begins, the cursor, and whether its caret is shown. -/
structure Line where
  text : Text
  start : Int
  cursor : Cursor
  showCaret : Bool

namespace Line

/-- The column of the caret. -/
def column (l : Line) : Int := l.cursor.position - l.start

/-- The caret is shown and lies on the line. -/
def hasCaret (l : Line) : Bool := l.showCaret && (0 ≤ l.column && l.column ≤ l.text.length)

/-- The first selected column. -/
def selectionStart (l : Line) : Int := l.text.clamp (l.cursor.first - l.start)

/-- The column after the last selected one. -/
def selectionEnd (l : Line) : Int := l.text.clamp (l.cursor.last - l.start)

/-- How many code units the character at the caret has: two for a surrogate pair, and none at the
end of the line. -/
def caretWidth (l : Line) : Int :=
  if l.hasCaret ∧ l.column < l.text.length then
    if Text.isPair (l.text.slice l.column (l.column + 2)) then 2 else 1
  else 0

/-- The columns at which the line is cut, in no order. -/
def bounds (l : Line) : List Int :=
  [0, (l.text.length : Int), l.selectionStart, l.selectionEnd] ++
    if l.hasCaret then [l.column, l.column + l.caretWidth] else []

/-- The columns at which the line is cut, from left to right. -/
def cuts (l : Line) : List Int := l.bounds.eraseDups.mergeSort (· ≤ ·)

/-- How the part of the line from one cut to the next is drawn. -/
def kindBetween (l : Line) (a b : Int) : SegmentKind :=
  if l.hasCaret ∧ a = l.column then .caret
  else if l.selectionStart ≤ a ∧ b ≤ l.selectionEnd ∧ l.selectionStart < l.selectionEnd then
    .selected
  else .plain

/-- The part of the line from one cut to the next. -/
def part (l : Line) (a b : Int) : Segment := ⟨l.kindBetween a b, l.text.slice a b⟩

/-- The parts of the line between neighbouring cuts, empty ones left out. -/
def partsBetween (l : Line) (cuts : List Int) : List Segment :=
  ((cuts.zip cuts.tail).filter fun c => c.1 < c.2).map fun c => l.part c.1 c.2

/-- The parts of the line, from left to right. -/
def parts (l : Line) : List Segment := l.partsBetween l.cuts

end Line

/-- A part put behind segments: into the last one, if both are drawn alike and not as the caret. -/
def push (segments : List Segment) (s : Segment) : List Segment :=
  match segments.getLast? with
  | some last =>
    if last.kind = s.kind ∧ s.kind ≠ .caret then
      segments.dropLast ++ [{ last with text := last.text ++ s.text }]
    else segments ++ [s]
  | none => [s]

/-- The segments of a line. -/
def ofLine (l : Line) : List Segment :=
  l.parts.foldl push [] ++
    if l.hasCaret ∧ l.column = l.text.length then [⟨.caret, [space]⟩] else []

end Segment

end ModalEditor
