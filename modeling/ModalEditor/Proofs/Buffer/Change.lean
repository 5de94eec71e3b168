import ModalEditor.Buffer.Plan
import ModalEditor.Proofs.Buffer.Operation

/-!
# Changes of a buffer

Whatever a key asks for, the buffer changes in one of five ways (`Change`), and `Buffer.make` makes
the change.

* `Buffer.make_eq`: a change whose range lies in the text is always made, and it is recorded as one
  action, or not at all if it leaves the text alone.
* `Buffer.takeBack_keeps`: an undo never touches an open group, and keeps the cursor in the text.
-/

namespace ModalEditor

/-- What happens to a buffer. -/
inductive Change where
  | rest
  | place (c : Cursor)
  | follow (p : Plan)
  /-- A range replaced, and the cursor put somewhere afterwards. -/
  | type (start stop : Int) (inserted : Text) (c : Option Cursor)
  /-- The last step undone, with the cursor where it began. -/
  | undo

namespace Change

def edit? : Change → Option Edit
  | .follow p => p.edit
  | .type start stop inserted _ => some { description := [], start, stop, inserted }
  | .rest | .place _ | .undo => none

def cursor? : Change → Option Cursor
  | .place c => some c
  | .follow p => some p.cursor
  | .type _ _ _ c => c
  | .rest | .undo => none

/-- The text after the edit of a change. -/
def result (ch : Change) (t : Text) : Text := ch.edit?.elim t fun e => e.result t

end Change

namespace Buffer

/-- The last step undone, with the cursor where it began. -/
def takeBack (b : Buffer) : Buffer :=
  match b.undo with
  | (b, some o) => b.setCursor (.collapsed (b.text.clamp o))
  | (b, none) => b

def make (b : Buffer) : Change → Except EditError Buffer
  | .rest => .ok b
  | .place c => .ok (b.setCursor c)
  | .follow p => b.follow p
  | .type start stop inserted c =>
    (b.replace start stop inserted).map fun b => c.elim b b.setCursor
  | .undo => .ok b.takeBack

end Buffer

/-! ## Edits that fit -/

/-- The range of an edit lies in the text. -/
structure Edit.Fits (e : Edit) (t : Text) : Prop where
  start_nonneg : 0 ≤ e.start
  start_le : e.start ≤ e.stop
  stop_le : e.stop ≤ t.length

theorem Edit.fits_mk {t description inserted : Text} {start stop : Int} (h : 0 ≤ start)
    (h' : start ≤ stop) (h'' : stop ≤ t.length) :
    ({ description, start, stop, inserted } : Edit).Fits t :=
  ⟨h, h', h''⟩

theorem Edit.Fits.result_eq {e : Edit} {t : Text} (h : e.Fits t) :
    e.result t = t.take e.start.toNat ++ e.inserted ++ t.drop e.stop.toNat := by
  obtain ⟨h1, h2, h3⟩ := h
  unfold Edit.result Text.before Text.following
  rw [Text.bound_of_nonneg h1, Text.bound_of_nonneg (by omega), Nat.min_eq_left (by omega),
    Nat.min_eq_left (by omega)]

/-- The edit of a change, if there is one, has its range in the text. -/
def Change.Fits (ch : Change) (t : Text) : Prop := ∀ e, ch.edit? = some e → e.Fits t

/-- The edit of a plan, if there is one, has its range in the text. -/
def Plan.Fits (p : Plan) (t : Text) : Prop := ∀ e, p.edit = some e → e.Fits t

/-- The splice an edit is made by. -/
def Edit.splice (e : Edit) (t : Text) : Splice := .of t e.start.toNat e.stop.toNat e.inserted

theorem Edit.Fits.splice_fits {e : Edit} {t : Text} (h : e.Fits t) : (e.splice t).Fits t := by
  obtain ⟨h1, h2, h3⟩ := h
  exact Splice.of_fits _ (by omega) (by omega)

theorem Edit.Fits.splice_apply {e : Edit} {t : Text} (h : e.Fits t) :
    (e.splice t).apply t = e.result t := by
  have ⟨h1, h2, h3⟩ := h
  rw [h.result_eq]
  exact Splice.apply_of _ (by omega) (by omega)

/-! ## One action for one edit -/

/-- An action collected by a group of its own is one action of the history around it. -/
theorem History.endGroup?_record_beginGroup {ε : Type} (h : History ε) (d : Text) (a : Action ε) :
    ∃ a' pushed, ((h.beginGroup d).record a).endGroup? = some (h.record a', pushed) ∧
      (a' = a ∨ a' = .batch d [a]) := by
  obtain ⟨past, future, group, limit⟩ := h
  cases group with
  | none => exact ⟨.batch d [a], true, rfl, .inr rfl⟩
  | some g => exact ⟨a, false, rfl, .inl rfl⟩

theorem History.depth_record {ε : Type} (h : History ε) (a : Action ε) :
    (h.record a).depth = h.depth := by
  obtain ⟨past, future, group, limit⟩ := h
  cases group <;> rfl

namespace Buffer

variable {b : Buffer}

/-- How an edit enters the history: as one action that leads to the new text and begins where the
edit begins, or not at all if it leaves the text alone. -/
def Records (b b' : Buffer) (e : Option Edit) : Prop :=
  b'.history = b.history ∧ b'.text = b.text ∨
    ∃ e' a, e = some e' ∧ b'.history = b.history.record a ∧ a.Leads b.text b'.text ∧
      a.position? = some e'.start

/-- What a change makes of a buffer. -/
structure Makes (b b' : Buffer) (ch : Change) : Prop where
  text : b'.text = ch.result b.text
  cursor : b.CursorInside → b'.cursor = (ch.cursor?.getD b.cursor).clampTo b'.text
  records : b.Records b' ch.edit?

theorem endGroup_eq {history : History Splice} {pushed : Bool}
    (h : b.history.endGroup? = some (history, pushed)) :
    ∃ b', b.endGroup = .ok b' ∧ b'.text = b.text ∧ b'.cursor = b.cursor ∧
      b'.history = history := by
  unfold endGroup
  rw [h]
  cases pushed <;> exact ⟨_, rfl, rfl, rfl, rfl⟩

theorem replace_edit {e : Edit} (h : e.Fits b.text) :
    b.replace e.start e.stop e.inserted =
      .ok (if e.start = e.stop ∧ e.inserted = [] then b else b.splice (e.splice b.text)) :=
  replace_eq h.start_nonneg h.start_le h.stop_le e.inserted

theorem result_of_empty {e : Edit} {t : Text} (h : e.Fits t)
    (he : e.start = e.stop ∧ e.inserted = []) : e.result t = t := by
  rw [h.result_eq, he.1, he.2, List.append_nil, List.take_append_drop]

theorem makes_replace {e : Edit} (h : e.Fits b.text) :
    ∃ b', b.replace e.start e.stop e.inserted = .ok b' ∧ b'.text = e.result b.text ∧
      (b.CursorInside → b'.cursor = b.cursor.clampTo b'.text) ∧ b.Records b' (some e) := by
  rw [replace_edit h]
  by_cases he : e.start = e.stop ∧ e.inserted = []
  · rw [if_pos he]
    exact ⟨b, rfl, (result_of_empty h he).symm, fun hc => (Cursor.clampTo_of_inside hc).symm,
      .inl ⟨rfl, rfl⟩⟩
  · rw [if_neg he]
    refine ⟨_, rfl, by rw [splice_text, h.splice_apply], fun _ => rfl, .inr ⟨e, _, rfl,
      b.splice_history _, Action.leads_edit h.splice_fits _ _, ?_⟩⟩
    exact congrArg some (Int.toNat_of_nonneg h.start_nonneg)

/-- A plan whose edit is one is recorded as one action, also if it gives the text back. -/
theorem carryOut_records {p : Plan} {e : Edit} (hp : p.edit = some e) (hf : e.Fits b.text)
    (he : ¬ (e.start = e.stop ∧ e.inserted = [])) : ∃ b' a, b.carryOut p = .ok b' ∧
      b'.text = e.result b.text ∧ b'.history = b.history.record a ∧ a.Leads b.text b'.text ∧
      a.position? = some e.start := by
  have hr := replace_edit (b := b.beginGroup e.description) hf
  rw [if_neg he] at hr
  let s := e.splice b.text
  obtain ⟨a, pushed, hend, ha⟩ := b.history.endGroup?_record_beginGroup e.description
    (.edit (describeChange s.removed s.inserted) s.start s)
  obtain ⟨b', hb, htext, -, hhistory⟩ :=
    endGroup_eq (b := (b.beginGroup e.description).splice s) hend
  have hleads : (Action.edit (describeChange s.removed s.inserted) s.start s).Leads b.text
      (s.apply b.text) := Action.leads_edit hf.splice_fits _ _
  have hstart : ((s.start : Nat) : Int) = e.start := Int.toNat_of_nonneg hf.start_nonneg
  refine ⟨b', a, ?_, by rw [htext, splice_text]; exact hf.splice_apply, hhistory, ?_⟩
  · unfold carryOut
    rw [hp]
    simp only [hr, bind, Except.bind]
    exact hb
  · rw [htext]
    rcases ha with rfl | rfl
    · exact ⟨hleads, congrArg some hstart⟩
    · exact ⟨Action.leads_batch (Action.leadsAll_singleton hleads) _, congrArg some hstart⟩

theorem follow_of_carryOut {p : Plan} {b' : Buffer} (h : b.carryOut p = .ok b') :
    b.follow p = .ok (b'.setCursor p.cursor) := by
  unfold follow
  rw [h]
  rfl

theorem follow_records {p : Plan} {e : Edit} (hp : p.edit = some e) (hf : e.Fits b.text)
    (he : ¬ (e.start = e.stop ∧ e.inserted = [])) : ∃ b' a, b.follow p = .ok b' ∧
      b'.text = e.result b.text ∧ b'.history = b.history.record a ∧ a.Leads b.text b'.text ∧
      a.position? = some e.start ∧ b'.cursor = p.cursor.clampTo b'.text := by
  obtain ⟨b', a, hb, htext, hh, ha, hposition⟩ := carryOut_records hp hf he
  refine ⟨b'.setCursor p.cursor, a, follow_of_carryOut hb, ?_⟩
  rw [setCursor_text, setCursor_history, setCursor_cursor]
  exact ⟨htext, hh, ha, hposition, rfl⟩

theorem makes_carryOut {p : Plan} (h : p.Fits b.text) :
    ∃ b', b.carryOut p = .ok b' ∧ b'.text = p.result b.text ∧ b.Records b' p.edit := by
  cases hp : p.edit with
  | none =>
    unfold carryOut Plan.result
    rw [hp]
    exact ⟨b, rfl, rfl, .inl ⟨rfl, rfl⟩⟩
  | some e =>
    have hf : e.Fits b.text := h e hp
    have hresult : p.result b.text = e.result b.text := by rw [Plan.result, hp, Option.elim_some]
    rw [hresult]
    by_cases he : e.start = e.stop ∧ e.inserted = []
    · have hr := replace_edit (b := b.beginGroup e.description) hf
      rw [if_pos he] at hr
      refine ⟨b, ?_, (result_of_empty hf he).symm, .inl ⟨rfl, rfl⟩⟩
      unfold carryOut
      rw [hp]
      simp only [hr, bind, Except.bind, endGroup_beginGroup]
    · obtain ⟨b', a, hb, htext, hrecord⟩ := carryOut_records hp hf he
      exact ⟨b', hb, htext, .inr ⟨e, a, rfl, hrecord⟩⟩

theorem exists_follow {p : Plan} (h : p.Fits b.text) :
    ∃ b', b.follow p = .ok b' ∧ b'.text = p.result b.text ∧
      b'.cursor = p.cursor.clampTo b'.text ∧ b.Records b' p.edit := by
  obtain ⟨b', hb, htext, hrecords⟩ := makes_carryOut h
  refine ⟨b'.setCursor p.cursor, follow_of_carryOut hb, ?_⟩
  unfold Records at hrecords ⊢
  rw [setCursor_text, setCursor_cursor, setCursor_history]
  exact ⟨htext, rfl, hrecords⟩

/-- **A change whose range lies in the text is made.** -/
theorem make_eq {ch : Change} (hu : ch ≠ .undo) (h : ch.Fits b.text) :
    ∃ b', b.make ch = .ok b' ∧ b.Makes b' ch := by
  cases ch with
  | rest =>
    exact ⟨b, rfl, rfl, fun hc => (Cursor.clampTo_of_inside hc).symm, .inl ⟨rfl, rfl⟩⟩
  | place c =>
    exact ⟨_, rfl, b.setCursor_text c, fun _ => by rw [setCursor_text]; exact b.setCursor_cursor c,
      .inl ⟨b.setCursor_history c, b.setCursor_text c⟩⟩
  | follow p =>
    obtain ⟨b', hb, htext, hcursor, hrecords⟩ := exists_follow h
    exact ⟨b', hb, htext, fun _ => hcursor, hrecords⟩
  | type start stop inserted c =>
    obtain ⟨b', hb, htext, hcursor, hrecords⟩ := makes_replace (h _ rfl)
    dsimp only at hb
    cases c with
    | none => exact ⟨b', by rw [make, hb]; rfl, htext, hcursor, hrecords⟩
    | some c =>
      refine ⟨b'.setCursor c, by rw [make, hb]; rfl, by rw [setCursor_text]; exact htext,
        fun _ => ?_, ?_⟩
      · rw [setCursor_text]
        exact b'.setCursor_cursor c
      · unfold Records at hrecords ⊢
        rwa [setCursor_text, setCursor_history]
  | undo => exact absurd rfl hu

/-! ## What every change keeps -/

theorem takeBack_of_past_nil (h : b.history.past = []) : b.takeBack = b := by
  unfold takeBack
  rw [undo_of_past_nil h]

theorem takeBack_cons {a : Action Splice} {past : List (Action Splice)}
    (h : b.history.past = a :: past) : b.takeBack = b.undo.1.setCursor
      (.collapsed (b.undo.1.text.clamp (b.undo.1.text.clamp (a.position?.getD 0)))) := by
  obtain ⟨-, -, ho⟩ := undo_cons h
  unfold takeBack
  rw [show b.undo = (b.undo.1, b.undo.2) from rfl, ho]

theorem takeBack_keeps (b : Buffer) :
    b.takeBack.history.depth = b.history.depth ∧ (b.CursorInside → b.takeBack.CursorInside) := by
  cases hp : b.history.past with
  | nil =>
    rw [takeBack_of_past_nil hp]
    exact ⟨rfl, id⟩
  | cons a past =>
    obtain ⟨-, hh, -⟩ := undo_cons hp
    rw [takeBack_cons hp, setCursor_history, hh]
    exact ⟨rfl, fun _ => setCursor_inside _ _⟩

/-- **No change fails** if its range lies in the text; it keeps the groups that are open and leaves
the cursor in the text. -/
theorem make_keeps {ch : Change} (h : ch.Fits b.text) :
    ∃ b', b.make ch = .ok b' ∧ b'.history.depth = b.history.depth ∧
      (b.CursorInside → b'.CursorInside) := by
  by_cases hu : ch = .undo
  · subst hu
    exact ⟨_, rfl, b.takeBack_keeps⟩
  · obtain ⟨b', hb, hm⟩ := make_eq hu h
    refine ⟨b', hb, ?_, fun hc => ?_⟩
    · rcases hm.records with ⟨hh, -⟩ | ⟨_, a, -, hh, -⟩
      · rw [hh]
      · rw [hh, History.depth_record]
    · have hinside : b'.cursor.Inside b'.text := by
        rw [hm.cursor hc]
        exact Cursor.clampTo_inside _ _
      exact hinside

end Buffer

end ModalEditor
