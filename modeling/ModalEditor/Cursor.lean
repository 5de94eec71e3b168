import ModalEditor.Text.Lines

/-!
# Cursors

A cursor is a position and an anchor; what lies between the two is selected, in either order. The
offsets of a cursor may lie outside the text until `Cursor.clampTo` brings them in.
-/

namespace ModalEditor

/-- A position and the other end of the selection. -/
structure Cursor where
  position : Int
  anchor : Int
deriving DecidableEq, Repr, Inhabited

/-- Which way a page goes. -/
inductive Direction where
  | up
  | down
deriving DecidableEq, Repr

namespace Cursor

/-- A cursor without a selection. -/
def collapsed (o : Int) : Cursor := ⟨o, o⟩

/-- Something is selected. -/
def hasSelection (c : Cursor) : Bool := c.position != c.anchor

/-- The lower end of the selection. -/
def first (c : Cursor) : Int := min c.position c.anchor

/-- The upper end of the selection. -/
def last (c : Cursor) : Int := max c.position c.anchor

/-- Both ends moved to the nearest offsets inside the text. -/
def clampTo (c : Cursor) (t : Text) : Cursor := ⟨t.clamp c.position, t.clamp c.anchor⟩

/-- Both ends lie inside the text. -/
def Inside (c : Cursor) (t : Text) : Prop :=
  (0 ≤ c.position ∧ c.position ≤ t.length) ∧ 0 ≤ c.anchor ∧ c.anchor ≤ t.length

theorem collapsed_of_not_hasSelection {c : Cursor} (h : c.hasSelection = false) :
    c = collapsed c.position := by
  obtain ⟨position, anchor⟩ := c
  obtain rfl : position = anchor := by simpa [hasSelection] using h
  rfl

theorem clampTo_inside (c : Cursor) (t : Text) : (c.clampTo t).Inside t :=
  ⟨⟨t.clamp_nonneg _, t.clamp_le _⟩, t.clamp_nonneg _, t.clamp_le _⟩

theorem clampTo_of_inside {c : Cursor} {t : Text} (h : c.Inside t) : c.clampTo t = c := by
  obtain ⟨⟨h1, h2⟩, h3, h4⟩ := h
  simp [clampTo, Text.clamp_of_mem, *]

end Cursor

end ModalEditor
