import ModalEditor.Buffer.Basic
import ModalEditor.Proofs.Undo.Trail

/-!
# Operations on a buffer

What each operation does to the text, the cursor and the history of a buffer. `Buffer.Op` lists the
operations a buffer's owner may call for, `Buffer.step` performs one (an operation that is refused
changes nothing) and `Buffer.run` performs them one after the other.
-/

namespace ModalEditor

/-- A range in whole numbers inside the text, if the bounds are one. -/
def Text.range? (t : Text) (start stop : Decimal) : Option (Nat × Nat) :=
  match start.toInt?, stop.toInt? with
  | some i, some j => if 0 ≤ i ∧ i ≤ j ∧ j ≤ t.length then some (i.toNat, j.toNat) else none
  | _, _ => none

theorem Text.range?_le {t : Text} {start stop : Decimal} {i j : Nat}
    (h : t.range? start stop = some (i, j)) : i ≤ j ∧ j ≤ t.length := by
  unfold range? at h
  split at h
  · split at h
    · simp only [Option.some.injEq, Prod.mk.injEq] at h
      omega
    · cases h
  · cases h

theorem Text.range?_ofInt {t : Text} {i j : Int} (hi : 0 ≤ i) (hij : i ≤ j) (hj : j ≤ t.length) :
    t.range? (.ofInt i) (.ofInt j) = some (i.toNat, j.toNat) := by
  simp only [range?, Decimal.toInt?_ofInt]
  exact if_pos ⟨hi, hij, hj⟩

namespace Buffer

variable {b : Buffer}

/-! ## Fields -/

section
variable (b)

@[simp] theorem setText_cursor (t : Text) : (b.setText t).cursor = b.cursor.clampTo t := rfl

@[simp] theorem setCursor_history (c : Cursor) : (b.setCursor c).history = b.history := by
  unfold setCursor
  split <;> rfl

@[simp] theorem splice_text (s : Splice) : (b.splice s).text = s.apply b.text := rfl

theorem splice_history (s : Splice) : (b.splice s).history =
    b.history.record (.edit (describeChange s.removed s.inserted) s.start s) := rfl

end

attribute [simp] setText_text setCursor_text setCursor_cursor

/-! ## Edits -/

theorem replaceDecimal_eq (b : Buffer) (start stop : Decimal) (inserted : Text) :
    b.replaceDecimal start stop inserted =
      match b.text.range? start stop with
      | none => .error (.invalidRange start stop b.text.length)
      | some (i, j) =>
        if i = j ∧ inserted = [] then .ok b else .ok (b.splice (.of b.text i j inserted)) := by
  unfold replaceDecimal Text.range?
  cases start.toInt? with
  | none => rfl
  | some i =>
    cases stop.toInt? with
    | none => rfl
    | some j =>
      dsimp only
      by_cases h : 0 ≤ i ∧ i ≤ j ∧ j ≤ b.text.length
      · rw [if_pos h, if_neg (by omega)]
        by_cases he : i = j ∧ inserted = []
        · rw [if_pos he]
          exact (if_pos ⟨by rw [he.1], he.2⟩).symm
        · rw [if_neg he]
          exact (if_neg fun hn => he ⟨by omega, hn.2⟩).symm
      · rw [if_neg h, if_pos (by omega)]

theorem replace_eq {i j : Int} (hi : 0 ≤ i) (hij : i ≤ j) (hj : j ≤ b.text.length)
    (inserted : Text) :
    b.replace i j inserted = .ok (if i = j ∧ inserted = [] then b
      else b.splice (.of b.text i.toNat j.toNat inserted)) := by
  unfold replace
  rw [replaceDecimal_eq, Text.range?_ofInt hi hij hj]
  by_cases he : i = j ∧ inserted = []
  · rw [if_pos he]
    exact if_pos ⟨by rw [he.1], he.2⟩
  · rw [if_neg he]
    exact if_neg fun hn => he ⟨by omega, hn.2⟩

theorem endGroup_ok {b' : Buffer} (h : b.endGroup = .ok b') :
    b'.text = b.text ∧ b'.cursor = b.cursor ∧
      b.history.endGroup?.map Prod.fst = some b'.history := by
  unfold endGroup at h
  split at h
  · cases h
  · rename_i history pushed he
    cases h
    cases pushed <;> exact ⟨rfl, rfl, by rw [he]; rfl⟩

theorem endGroup_beginGroup (b : Buffer) (description : Text) :
    (b.beginGroup description).endGroup = .ok b := by
  obtain ⟨text, saved, cursor, version, pageLines, ⟨past, future, group, limit⟩, watchers, starts⟩ := b
  cases group <;> rfl

/-! ## Undo and redo -/

def CursorInside (b : Buffer) : Prop := b.cursor.Inside b.text

theorem setText_inside (b : Buffer) (t : Text) : (b.setText t).CursorInside :=
  Cursor.clampTo_inside _ _

/-- An action reverted on a buffer is reverted on its text, and leaves the cursor inside. -/
theorem revert_view (b : Buffer) (a : Action Splice) :
    (a.revert (fun s b => b.setText (s.undo b.text)) b).text = a.revert Splice.undo b.text ∧
      (b.CursorInside → (a.revert (fun s b => b.setText (s.undo b.text)) b).CursorInside) := by
  refine Action.revert_related
    (R := fun b' t => b'.text = t ∧ (b.CursorInside → b'.CursorInside)) ?_ a b b.text ⟨rfl, id⟩
  rintro s b' _ ⟨rfl, -⟩
  exact ⟨rfl, fun _ => b'.setText_inside _⟩

theorem perform_view (b : Buffer) (a : Action Splice) :
    (a.perform (fun s b => b.setText (s.apply b.text)) b).text = a.perform Splice.apply b.text ∧
      (b.CursorInside → (a.perform (fun s b => b.setText (s.apply b.text)) b).CursorInside) := by
  refine Action.perform_related
    (R := fun b' t => b'.text = t ∧ (b.CursorInside → b'.CursorInside)) ?_ a b b.text ⟨rfl, id⟩
  rintro s b' _ ⟨rfl, -⟩
  exact ⟨rfl, fun _ => b'.setText_inside _⟩

theorem undo_of_past_nil (h : b.history.past = []) : b.undo = (b, none) := by
  unfold undo History.undo?
  rw [h]

theorem redo_of_future_nil (h : b.history.future = []) : b.redo = (b, none) := by
  unfold redo History.redo?
  rw [h]

section
variable {a : Action Splice}

theorem undo_cons {past : List (Action Splice)} (h : b.history.past = a :: past) :
    b.undo.1.text = a.revert Splice.undo b.text ∧
      b.undo.1.history = { b.history with past, future := a :: b.history.future } ∧
      b.undo.2 = some (b.undo.1.text.clamp (a.position?.getD 0)) := by
  unfold undo History.undo?
  rw [h]
  exact ⟨(revert_view b a).1, rfl, rfl⟩

theorem redo_cons {future : List (Action Splice)} (h : b.history.future = a :: future) :
    b.redo.1.text = a.perform Splice.apply b.text ∧
      b.redo.1.history = { b.history with past := a :: b.history.past, future } ∧
      b.redo.2 = some (b.redo.1.text.clamp (a.position?.getD 0)) := by
  unfold redo History.redo?
  rw [h]
  exact ⟨(perform_view b a).1, rfl, rfl⟩

end

/-! ## Operations -/

/-- What a buffer's owner may call for. -/
inductive Op where
  | replace (start stop : Decimal) (inserted : Text)
  | setCursor (c : Cursor)
  | beginGroup (description : Text)
  | endGroup
  | undo
  | redo
  | load (t : Text)
  | markSaved
  | setPageLines (lines : Decimal)
  | subscribe (name : Text)
  | unsubscribe (name : Text)
deriving DecidableEq

/-- The buffer after an operation; one that is refused changes nothing. -/
def step (b : Buffer) : Op → Buffer
  | .replace start stop inserted => (b.replaceDecimal start stop inserted).toOption.getD b
  | .setCursor c => b.setCursor c
  | .beginGroup description => b.beginGroup description
  | .endGroup => b.endGroup.toOption.getD b
  | .undo => b.undo.1
  | .redo => b.redo.1
  | .load t => b.load t
  | .markSaved => b.markSaved
  | .setPageLines lines => b.setPageLines lines
  | .subscribe name => b.subscribe name
  | .unsubscribe name => b.unsubscribe name

def run (b : Buffer) (ops : List Op) : Buffer := ops.foldl step b

/-! ## The cursor -/

theorem setCursor_inside (b : Buffer) (c : Cursor) : (b.setCursor c).CursorInside := by
  unfold CursorInside
  rw [setCursor_text, setCursor_cursor]
  exact Cursor.clampTo_inside _ _

theorem undo_inside (h : b.CursorInside) : b.undo.1.CursorInside := by
  unfold undo
  split
  · exact h
  · exact (revert_view b _).2 h

theorem redo_inside (h : b.CursorInside) : b.redo.1.CursorInside := by
  unfold redo
  split
  · exact h
  · exact (perform_view b _).2 h

/-- No operation leaves the cursor outside of the text. -/
theorem step_inside (h : b.CursorInside) (op : Op) : (b.step op).CursorInside := by
  cases op with
  | replace start stop inserted =>
    rw [step, replaceDecimal_eq]
    split
    · exact h
    · split
      · exact h
      · exact b.setText_inside _
  | setCursor c => exact b.setCursor_inside c
  | endGroup =>
    rw [step]
    cases he : b.endGroup with
    | error e => exact h
    | ok b' =>
      obtain ⟨htext, hcursor, -⟩ := endGroup_ok he
      change b'.cursor.Inside b'.text
      rw [htext, hcursor]
      exact h
  | undo => exact undo_inside h
  | redo => exact redo_inside h
  | load t => exact setText_inside _ t
  | beginGroup | markSaved | setPageLines | subscribe | unsubscribe => exact h

end Buffer

end ModalEditor
