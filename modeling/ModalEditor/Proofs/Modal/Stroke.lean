import ModalEditor.Modal.Interpreter
import ModalEditor.Proofs.Buffer.Change
import ModalEditor.Proofs.Text.Character
import ModalEditor.Proofs.Text.Lines

/-!
# What a key asks of the text

A `Stroke` is what a key asks of the text: a motion, an edit, a line break, a typed text.
`Stroke.change` works out what it does to a text with a cursor, before anything is done.

Every edit a stroke makes has a range inside the text (`Stroke.change_fits`), wherever the cursor is:
on an empty text, at both ends, on the empty line after a final line feed, with the selection either
way round.
-/

namespace ModalEditor

/-- What a key asks of the text. -/
inductive Stroke where
  | rest
  | move (m : Motion) (select : Bool)
  | page (lines : Int) (d : Direction)
  | top
  | edit (e : Repeatable)
  | yank
  | insert (place : InsertPlace)
  | breakLine
  | undo
  | type (t : Text)
  | eraseBackward
  | eraseForward
deriving DecidableEq

/-! ## Changes -/

namespace Repeatable

/-- The plan of an edit at a cursor. -/
def plan (t : Text) (c : Cursor) (register : Text) : Repeatable → Plan
  | .deleteChar => if c.hasSelection then .cutSelection t c else .cutCharacter t c
  | .delete => if c.hasSelection then .cutSelection t c else .cutLine t c
  | .paste => .pasteBelow t c register
  | .overwrite character => .overwrite t c character

/-- What the edit takes out goes to the register. -/
def cuts (c : Cursor) : Repeatable → Bool
  | .deleteChar => c.hasSelection
  | .delete => true
  | .paste | .overwrite _ => false

end Repeatable

namespace Stroke

/-- A typed text put in place of the selection. -/
def typing (t : Text) (c : Cursor) (typed : Text) : Change :=
  .type (t.clamp c.first) (t.clamp c.last) typed
    (some (.collapsed (t.clamp c.first + typed.length)))

/-- What a stroke does to a text with a cursor. -/
def change (t : Text) (c : Cursor) (register : Text) : Stroke → Change
  | .rest | .yank => .rest
  | .move m select => .place (c.move t m select)
  | .page lines d => .place (c.page t lines d)
  | .top => .place (.collapsed 0)
  | .edit e => .follow (e.plan t c register)
  | .insert .before => .place c
  | .insert .after => .place (c.pastCharacter t)
  | .insert .lineBelow => .follow (.openBelow t c)
  | .insert .lineAbove => .follow (.openAbove t c)
  | .breakLine => .follow (.breakLine t c)
  | .undo => .undo
  | .type typed => typing t c typed
  | .eraseBackward =>
    let here := t.clamp c.position
    if c.hasSelection then typing t c []
    else if here = 0 then .rest
    else .type (t.prev here) here [] (some (.collapsed (t.prev here)))
  | .eraseForward =>
    let here := t.clamp c.position
    if c.hasSelection then typing t c []
    else if t.length ≤ here then .rest
    else .type here (t.next here) [] none

/-- The register after a stroke. -/
def register (t : Text) (c : Cursor) (register : Text) : Stroke → Text
  | .edit e => if e.cuts c then (e.plan t c register).removed else register
  | .yank => Plan.copyLine t c
  | _ => register

theorem change_ne_undo {t : Text} {c : Cursor} {register : Text} {s : Stroke}
    (h : s ≠ .undo) : s.change t c register ≠ .undo := by
  cases s with
  | undo => exact absurd rfl h
  | insert place => cases place <;> simp [change]
  | eraseBackward | eraseForward =>
    dsimp only [change]
    split
    · simp [typing]
    split <;> simp
  | _ => simp [change, typing]

end Stroke

/-! ## Ranges -/

namespace Cursor

theorem first_le_last (c : Cursor) : c.first ≤ c.last := by
  unfold first last
  omega

theorem exists_selection (c : Cursor) (t : Text) :
    ∃ u v w, t = u ++ v ++ w ∧ (u.length : Int) = t.clamp c.first ∧
      ((u ++ v).length : Int) = t.clamp c.last ∧
      t.slice (t.clamp c.first) (t.clamp c.last) = v := by
  have hfirst := t.clamp_nonneg c.first
  have hle := t.clamp_mono c.first_le_last
  have hlast := t.clamp_le c.last
  let u := t.take (t.clamp c.first).toNat
  let v := (t.take (t.clamp c.last).toNat).drop (t.clamp c.first).toNat
  have huv : u ++ v = t.take (t.clamp c.last).toNat := by
    have hparts := List.take_append_drop (t.clamp c.first).toNat (t.take (t.clamp c.last).toNat)
    rwa [List.take_take, Nat.min_eq_left (by omega)] at hparts
  refine ⟨u, v, t.drop (t.clamp c.last).toNat, ?_, ?_, ?_, ?_⟩
  · rw [huv, List.take_append_drop]
  · rw [List.length_take]
    omega
  · rw [huv, List.length_take]
    omega
  · exact Text.slice_of_mem hfirst (by omega) (by omega) hlast

theorem clampTo_append (u w : Text) :
    (collapsed u.length).clampTo (u ++ w) = collapsed u.length := by
  have hinside : 0 ≤ (u.length : Int) ∧ (u.length : Int) ≤ (u ++ w).length := by
    rw [List.length_append]
    omega
  exact clampTo_of_inside ⟨hinside, hinside⟩

end Cursor

namespace Plan

variable (t : Text) (c : Cursor)

theorem none_fits : (Plan.none c).Fits t := fun _ h => by cases h

theorem of_fits {e : Edit} {cursor : Cursor} {removed : Text} (h : e.Fits t) :
    ({ edit := some e, cursor, removed } : Plan).Fits t := fun _ he => by cases he; exact h

/-- The last line loses the separator before it, every other line the one after it. -/
theorem cutLine_fits : (cutLine t c).Fits t := by
  unfold cutLine
  split
  · exact none_fits t _
  have hline := t.nearestLine_lineAt c.position
  have h1 := t.lineStart_nonneg (t.lineAt c.position)
  have h2 := t.lineStart_le_lineEnd (t.lineAt c.position)
  have h3 := t.lineEnd_le_length (t.lineAt c.position)
  apply of_fits
  by_cases hend : decide (t.lastFullLine ≤ t.lineAt c.position ∧ 0 < t.lineAt c.position) = true
  · have hpos : 0 < t.lineStart (t.lineAt c.position) :=
      Text.lineStart_pos (by rw [hline]; exact (of_decide_eq_true hend).2)
    simp only [if_pos hend]
    exact Edit.fits_mk (by omega) (by omega) h3
  · simp only [if_neg hend]
    exact Edit.fits_mk h1 (by omega) (by omega)

theorem pasteBelow_fits (pasted : Text) : (pasteBelow t c pasted).Fits t := by
  unfold pasteBelow
  split
  · exact none_fits t _
  · exact of_fits t ⟨t.lineEnd_nonneg _, Int.le_refl _, t.lineEnd_le_length _⟩

theorem openBelow_fits : (openBelow t c).Fits t := by
  unfold openBelow
  split
  · exact none_fits t _
  · exact of_fits t ⟨t.lineEnd_nonneg _, Int.le_refl _, t.lineEnd_le_length _⟩

theorem openAbove_fits : (openAbove t c).Fits t :=
  of_fits t ⟨t.lineStart_nonneg _, Int.le_refl _, t.lineStart_le_length _⟩

/-- The blanks dropped by a line break stand on the line that holds the end of the selection. -/
theorem breakLine_fits : (breakLine t c).Fits t := by
  have hfirst := t.clamp_nonneg c.first
  have hlast := t.clamp_le c.last
  have hle := t.clamp_mono c.first_le_last
  have hend := t.lineEnd_le_length (t.lineAt (t.clamp c.last))
  have hlength : (t.slice (t.clamp c.last) (t.lineEnd (t.lineAt (t.clamp c.last)))).length ≤
      t.length - (t.clamp c.last).toNat := by
    rw [Text.slice_of_mem (by omega) hlast (t.lineEnd_nonneg _) hend, List.length_drop,
      List.length_take]
    omega
  have hindent := Text.indent_length_le
    (t.slice (t.clamp c.last) (t.lineEnd (t.lineAt (t.clamp c.last))))
  exact of_fits t (Edit.fits_mk hfirst (by omega) (by omega))

theorem cutSelection_fits : (cutSelection t c).Fits t := by
  unfold cutSelection
  split
  · exact of_fits t ⟨t.clamp_nonneg _, t.clamp_mono c.first_le_last, t.clamp_le _⟩
  · exact none_fits t _

theorem next_fits (o : Int) {e : Edit} (h : e.start = t.clamp o)
    (h' : e.stop = t.next (t.clamp o)) : e.Fits t := by
  have hnext := t.next_bounds (t.clamp_nonneg o) (t.clamp_le o)
  exact ⟨by rw [h]; exact t.clamp_nonneg o, by rw [h, h']; exact hnext.1, by rw [h']; exact hnext.2⟩

theorem cutCharacter_fits : (cutCharacter t c).Fits t := by
  unfold cutCharacter
  dsimp only
  split
  · exact none_fits t _
  · exact of_fits t (next_fits t c.position rfl rfl)

theorem overwrite_fits (character : Text) : (overwrite t c character).Fits t := by
  unfold overwrite
  dsimp only
  split
  · exact none_fits t _
  · exact of_fits t (next_fits t c.position rfl rfl)

end Plan

theorem Repeatable.plan_fits (t : Text) (c : Cursor) (register : Text) (e : Repeatable) :
    (e.plan t c register).Fits t := by
  cases e with
  | deleteChar =>
    dsimp only [plan]
    split
    · exact Plan.cutSelection_fits t c
    · exact Plan.cutCharacter_fits t c
  | delete =>
    dsimp only [plan]
    split
    · exact Plan.cutSelection_fits t c
    · exact Plan.cutLine_fits t c
  | paste => exact Plan.pasteBelow_fits t c register
  | overwrite character => exact Plan.overwrite_fits t c character

namespace Stroke

theorem typing_fits (t : Text) (c : Cursor) (typed : Text) : (typing t c typed).Fits t :=
  fun _ h => by
    cases h
    exact ⟨t.clamp_nonneg _, t.clamp_mono c.first_le_last, t.clamp_le _⟩

/-- **Every edit fits.** Whatever a stroke replaces lies inside the text. -/
theorem change_fits (t : Text) (c : Cursor) (register : Text) (s : Stroke) :
    (s.change t c register).Fits t := by
  have hnone : ∀ {ch : Change}, ch.edit? = none → ch.Fits t := fun h e he => by
    rw [h] at he
    cases he
  cases s with
  | edit e => exact e.plan_fits t c register
  | insert place =>
    cases place with
    | before | after => exact hnone rfl
    | lineBelow => exact Plan.openBelow_fits t c
    | lineAbove => exact Plan.openAbove_fits t c
  | breakLine => exact Plan.breakLine_fits t c
  | type typed => exact typing_fits t c typed
  | eraseBackward =>
    dsimp only [change]
    split
    · exact typing_fits t c []
    split
    · exact hnone rfl
    · have hprev := t.prev_bounds (t.clamp_nonneg c.position) (t.clamp_le c.position)
      intro e he
      cases he
      exact ⟨hprev.1, hprev.2, t.clamp_le _⟩
  | eraseForward =>
    dsimp only [change]
    split
    · exact typing_fits t c []
    split
    · exact hnone rfl
    · intro e he
      cases he
      exact Plan.next_fits t c.position rfl rfl
  | _ => exact hnone rfl

end Stroke

end ModalEditor
