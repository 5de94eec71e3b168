import ModalEditor.Proofs.Buffer.Change
import ModalEditor.Proofs.Buffer.Watching
import ModalEditor.Proofs.Modal.Reading

/-!
# The version of a buffer

A buffer counts its changes, so that two states of one version hold the same text, and its watchers
are called at each: `Buffer.Follows`. Every change a key makes leads to a buffer that follows, and so
do undo and redo. What was saved last is changed by none of them.
-/

namespace ModalEditor

namespace Buffer

/-- The second buffer comes about from the first without loading and saving. -/
structure Follows (b b' : Buffer) : Prop extends Shows (fun _ => True) b b' where
  savedText : b'.savedText = b.savedText

section
variable {b b' b'' : Buffer}

theorem revert_savedText (b : Buffer) (a : Action Splice) :
    (a.revert (fun s b => b.setText (s.undo b.text)) b).savedText = b.savedText := by
  refine a.revert_keeps (P := fun b' : Buffer => b'.savedText = b.savedText) ?_ rfl
  exact fun _ _ h => h

theorem perform_savedText (b : Buffer) (a : Action Splice) :
    (a.perform (fun s b => b.setText (s.apply b.text)) b).savedText = b.savedText := by
  refine a.perform_keeps (P := fun b' : Buffer => b'.savedText = b.savedText) ?_ rfl
  exact fun _ _ h => h

theorem step_savedText (b : Buffer) {op : Op} (hload : ∀ t, op ≠ .load t) (hsave : op ≠ .markSaved) :
    (b.step op).savedText = b.savedText := by
  cases op with
  | replace start stop inserted =>
    rw [step, replaceDecimal_eq]
    split
    · rfl
    · split <;> rfl
  | setCursor c =>
    rw [step, setCursor]
    split <;> rfl
  | endGroup =>
    rw [step, endGroup]
    split
    · rfl
    · rename_i pushed _
      cases pushed <;> rfl
  | undo =>
    rw [step, undo]
    split
    · rfl
    · exact revert_savedText b _
  | redo =>
    rw [step, redo]
    split
    · rfl
    · exact perform_savedText b _
  | load t => exact absurd rfl (hload t)
  | markSaved => exact absurd rfl hsave
  | beginGroup | setPageLines | subscribe | unsubscribe => rfl

/-- Operations that neither load nor save, with nobody joining or leaving. -/
def Op.isQuiet : Op → Bool
  | .load _ | .markSaved | .subscribe _ | .unsubscribe _ => false
  | _ => true

theorem step_follows (b : Buffer) (op : Op) (h : op.isQuiet = true) : b.Follows (b.step op) where
  toShows := b.step_shows op fun _ _ => ⟨(by rintro rfl; cases h), (by rintro rfl; cases h)⟩
  savedText := b.step_savedText (by rintro t rfl; cases h) (by rintro rfl; cases h)

namespace Follows

theorem refl (b : Buffer) : b.Follows b := ⟨.refl _ b, rfl⟩

theorem trans (h : b.Follows b') (h' : b'.Follows b'') : b.Follows b'' :=
  ⟨h.toShows.trans h'.toShows, h'.savedText.trans h.savedText⟩

theorem text (h : b.Follows b') (hv : b'.version = b.version) : b'.text = b.text :=
  congrArg Snapshot.text (h.snapshot hv)

/-- In one version, the same is modified. -/
theorem isModified (h : b.Follows b') (hv : b'.version = b.version) :
    b'.isModified = b.isModified :=
  congrArg Snapshot.modified (h.snapshot hv)

theorem setCursor (h : b.Follows b') (c : Cursor) : b.Follows (b'.setCursor c) :=
  h.trans (b'.step_follows (.setCursor c) rfl)

end Follows

theorem replace_follows {start stop : Int} {inserted : Text}
    (h : b.replace start stop inserted = .ok b') : b.Follows b' := by
  have hstep := b.step_follows (.replace (.ofInt start) (.ofInt stop) inserted) rfl
  rw [replace] at h
  rwa [step, h] at hstep

theorem endGroup_follows (h : b.endGroup = .ok b') : b.Follows b' := by
  have hstep := b.step_follows .endGroup rfl
  rwa [step, h] at hstep

theorem carryOut_follows {p : Plan} (h : b.carryOut p = .ok b') : b.Follows b' := by
  unfold carryOut at h
  split at h
  · cases h
    exact .refl b
  · rename_i e _
    cases hr : (b.beginGroup e.description).replace e.start e.stop e.inserted with
    | error e => simp [hr, bind, Except.bind] at h
    | ok b₁ =>
      simp only [hr, bind, Except.bind] at h
      have hb : b.Follows (b.beginGroup e.description) := b.step_follows (.beginGroup _) rfl
      exact (hb.trans (replace_follows hr)).trans (endGroup_follows h)

theorem undo_follows (b : Buffer) : b.Follows b.undo.1 := b.step_follows .undo rfl

theorem redo_follows (b : Buffer) : b.Follows b.redo.1 := b.step_follows .redo rfl

theorem make_follows {ch : Change} (h : b.make ch = .ok b') : b.Follows b' := by
  cases ch with
  | rest =>
    cases h
    exact .refl b
  | place c =>
    cases h
    exact (Follows.refl b).setCursor c
  | follow p =>
    rw [make, follow] at h
    cases hc : b.carryOut p with
    | error e => simp [hc, bind, Except.bind] at h
    | ok b₁ =>
      rw [hc] at h
      cases h
      exact (carryOut_follows hc).setCursor _
  | type start stop inserted c =>
    rw [make] at h
    cases hr : b.replace start stop inserted with
    | error e => simp [hr, Except.map] at h
    | ok b₁ =>
      rw [hr] at h
      cases h
      cases c with
      | none => exact replace_follows hr
      | some c => exact (replace_follows hr).setCursor c
  | undo =>
    cases h
    have hu := b.undo_follows
    unfold takeBack
    split <;> rename_i heq <;> rw [heq] at hu
    · exact hu.setCursor _
    · exact hu

end

end Buffer

theorem Desk.carry_follows {d d' : Desk} {r : Reading} (h : d.carry r = .ok d') :
    d.buffer.Follows d'.buffer := by
  rw [carry] at h
  cases hm : d.buffer.make (r.stroke.change d.buffer.text d.buffer.cursor d.register) with
  | error e => simp [hm, Except.map] at h
  | ok b =>
    rw [hm] at h
    cases h
    exact Buffer.make_follows hm

theorem Desk.offer_follows {d d' : Desk} {k : KeyPress} {taken : Bool}
    (h : d.offer k = .ok (d', taken)) : d.buffer.Follows d'.buffer := by
  rw [offer_eq] at h
  cases hc : d.carry (d.readThrough k) with
  | error e => simp [hc, Except.map] at h
  | ok d₁ =>
    rw [hc] at h
    cases h
    exact carry_follows hc

theorem Desk.scroll_follows (d : Desk) (direction : Direction) :
    d.buffer.Follows (d.scroll direction).buffer :=
  (Buffer.Follows.refl _).setCursor _

end ModalEditor
