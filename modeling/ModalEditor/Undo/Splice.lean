import ModalEditor.Text.Basic

/-!
# Splices

A splice replaces a stretch of a text by another text and remembers what it removed, so that it can
be undone.
-/

namespace ModalEditor

/-- How a replacement is called: by what it removes and what it inserts. -/
def describeChange (removed inserted : Text) : Text :=
  if removed ≠ [] ∧ inserted ≠ [] then
    Text.ofString "Replace " ++ Text.ofNat removed.length ++ Text.ofString " chars"
  else if removed ≠ [] then
    Text.ofString "Delete " ++ Text.ofNat removed.length ++ Text.ofString " chars"
  else
    Text.ofString "Insert " ++ Text.ofNat inserted.length ++ Text.ofString " chars"

/-- At `start`, the text `removed` gives way to the text `inserted`. -/
structure Splice where
  start : Nat
  removed : Text
  inserted : Text
deriving DecidableEq, Repr

namespace Splice

/-- The text after the splice. -/
def apply (s : Splice) (t : Text) : Text :=
  t.take s.start ++ s.inserted ++ t.drop (s.start + s.removed.length)

/-- The text before the splice. -/
def undo (s : Splice) (t : Text) : Text :=
  t.take s.start ++ s.removed ++ t.drop (s.start + s.inserted.length)

/-- The splice of a text that replaces everything from `start` to `stop`. -/
def of (t : Text) (start stop : Nat) (inserted : Text) : Splice :=
  ⟨start, (t.take stop).drop start, inserted⟩

/-- The splice fits the text: what it removes is what stands there. -/
def Fits (s : Splice) (t : Text) : Prop :=
  s.start ≤ t.length ∧ (t.drop s.start).take s.removed.length = s.removed

/-- A splice that fits is undone exactly. -/
theorem undo_apply {s : Splice} {t : Text} (h : s.Fits t) : s.undo (s.apply t) = t := by
  obtain ⟨h1, h2⟩ := h
  have hlen : (t.take s.start).length = s.start := by simp [h1]
  have hstart : (s.apply t).take s.start = t.take s.start := by
    rw [apply, List.append_assoc, List.take_append_of_le_length (by omega),
      List.take_of_length_le (by omega)]
  have hrest : (s.apply t).drop (s.start + s.inserted.length)
      = t.drop (s.start + s.removed.length) := by
    rw [apply, List.drop_append,
      List.drop_of_length_le (by rw [List.length_append, List.length_take]; omega), List.nil_append]
    simp [hlen]
  rw [undo, hstart, hrest, List.append_assoc]
  calc t.take s.start ++ (s.removed ++ t.drop (s.start + s.removed.length))
      = t.take s.start ++ ((t.drop s.start).take s.removed.length
          ++ (t.drop s.start).drop s.removed.length) := by rw [h2, List.drop_drop]
    _ = t := by rw [List.take_append_drop, List.take_append_drop]

theorem of_fits {t : Text} {start stop : Nat} (inserted : Text) (h : start ≤ stop)
    (h' : stop ≤ t.length) : (of t start stop inserted).Fits t := by
  refine ⟨Nat.le_trans h h', ?_⟩
  simp only [of, List.length_drop, List.length_take, Nat.min_eq_left h', List.take_drop]
  congr 2
  omega

/-- A splice made from a text keeps what is before `start` and what is from `stop` on. -/
theorem apply_of {t : Text} {start stop : Nat} (inserted : Text) (h : start ≤ stop)
    (h' : stop ≤ t.length) :
    (of t start stop inserted).apply t = t.take start ++ inserted ++ t.drop stop := by
  simp only [apply, of, List.length_drop, List.length_take, Nat.min_eq_left h']
  congr 2
  omega

end Splice

end ModalEditor
