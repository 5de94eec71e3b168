import ModalEditor.Proofs.Buffer.Ledger
import ModalEditor.Proofs.Buffer.Version

/-!
# Loading a text

Loading is to leave nothing of the steps before it: once the groups are closed there is nothing to
undo, and whatever is done next, the buffer goes on like a new one (`Buffer.LoadsAnew`). A group that
is open stays open, and the edits it has collected become a step when it is closed, a step of a text
that is gone.

`Buffer.load_anew_iff`: loading is as expected exactly if no open group holds an edit, unless the
history keeps no steps at all (`Ledger.Forgetful`).
-/

namespace ModalEditor

namespace Ledger

variable {s s' : Ledger}

/-! ## Groups opened and closed -/

theorem run_beginGroups (hg : s.history.group = none) (d : Text) (n : Nat) :
    s.run (List.replicate (n + 1) (.beginGroup d)) =
      ⟨s.text, { s.history with group := some { description := d, inner := n } }⟩ := by
  induction n with
  | zero => simp [step, History.beginGroup_of_none hg]
  | succ n ih =>
    rw [List.replicate_succ', run_append, ih]
    rfl

theorem run_endGroups {g : OpenGroup Splice} (hg : s.history.group = some g) :
    s.run (List.replicate (g.inner + 1) .endGroup) =
      (⟨s.text, { s.history with group := some { g with inner := 0 } }⟩ : Ledger).step .endGroup := by
  obtain ⟨description, inner, actions⟩ := g
  induction inner generalizing s with
  | zero =>
    rw [← hg]
    rfl
  | succ n ih =>
    have hstep := endGroup_inner hg (Nat.succ_ne_zero n)
    rw [List.replicate_succ, run_cons, hstep]
    exact ih rfl

theorem run_endGroups_text (s : Ledger) (n : Nat) :
    (s.run (List.replicate n .endGroup)).text = s.text := by
  induction n generalizing s with
  | zero => rfl
  | succ n ih =>
    rw [List.replicate_succ, run_cons, ih]
    rfl

theorem run_undos_nil (hp : s.history.past = []) (n : Nat) :
    s.run (List.replicate n .undo) = s := by
  induction n with
  | zero => rfl
  | succ n ih => rw [List.replicate_succ, run_cons, undo_nil hp, ih]

/-! ## Histories without room -/

/-- Nothing can be undone or redone, and no step will be kept. -/
structure Forgetful (s : Ledger) : Prop where
  limit : s.history.limit ≤ 0
  past : s.history.past = []
  future : s.history.future = []

theorem forgetful_push {h : History Splice} (hl : h.limit ≤ 0) (hp : h.past = []) (t : Text)
    (a : Action Splice) : Forgetful ⟨t, h.push a⟩ where
  limit := hl
  past := by
    have hlt : h.limit < (([a] : List (Action Splice)).length : Int) := by
      rw [List.length_singleton]
      omega
    simp only [History.push, History.trim, hp, if_pos hlt]
    rfl
  future := rfl

theorem Forgetful.step (h : s.Forgetful) (op : Buffer.Op) : (s.step op).Forgetful := by
  obtain ⟨hl, hp, hf⟩ := h
  apply step_cases
  case same => exact ⟨hl, hp, hf⟩
  case push => exact fun t a => forgetful_push (h := { s.history with group := none }) hl hp t a
  case regroup => exact fun t g => ⟨hl, hp, hf⟩
  case undo =>
    intro a past h
    rw [hp] at h
    cases h
  case redo =>
    intro a future h
    rw [hf] at h
    cases h
  case load => exact fun t => ⟨hl, rfl, rfl⟩

theorem Forgetful.run (h : s.Forgetful) (ops : List Buffer.Op) : (s.run ops).Forgetful := by
  induction ops generalizing s with
  | nil => exact h
  | cons op ops ih => exact ih (h.step op)

/-- Where nothing can be undone or redone, the text depends on the text alone. -/
theorem Forgetful.step_text (h : s.Forgetful) (h' : s'.Forgetful) (ht : s.text = s'.text)
    (op : Buffer.Op) : (s.step op).text = (s'.step op).text := by
  cases op with
  | replace start stop inserted =>
    simp only [Ledger.step, ht]
    cases s'.text.range? start stop with
    | none => exact ht
    | some r =>
      dsimp only
      split
      · exact ht
      · rw [splice, splice, ht]
  | undo => rw [undo_nil h.past, undo_nil h'.past, ht]
  | redo => rw [redo_nil h.future, redo_nil h'.future, ht]
  | load t => rfl
  | _ => exact ht

theorem Forgetful.run_text (h : s.Forgetful) (h' : s'.Forgetful) (ht : s.text = s'.text)
    (ops : List Buffer.Op) : (s.run ops).text = (s'.run ops).text := by
  induction ops generalizing s s' with
  | nil => exact ht
  | cons op ops ih => exact ih (h.step op) (h'.step op) (h.step_text h' ht op)

end Ledger

namespace Buffer

/-- A new buffer of a text, with as many groups opened as are open in `b`. -/
def renewed (b : Buffer) (t : Text) : Buffer :=
  (ofText t b.pageLines b.history.limit).run
    (List.replicate b.history.depth (.beginGroup (b.history.group.elim [] OpenGroup.description)))

/-- What is expected of loading `t`. -/
structure LoadsAnew (b : Buffer) (t : Text) : Prop where
  /-- Once the groups are closed there is nothing to undo, however often it is called for. -/
  settled : ∀ n,
    let b' := ((b.load t).run (List.replicate b.history.depth .endGroup)).run
      (List.replicate n .undo)
    b'.text = t ∧ b'.history.canUndo = false ∧ b'.isModified = false
  /-- Whatever is done next, the steps to undo and to redo are those of a new buffer. -/
  anew : ∀ ops,
    let b' := (b.load t).run ops
    let new := (b.renewed t).run ops
    b'.text = new.text ∧ b'.history.past = new.history.past ∧
      b'.history.future = new.history.future

section
variable {b : Buffer} {t : Text}

theorem load_ledger (b : Buffer) (t : Text) : (b.load t).ledger = ⟨t, b.history.clear⟩ := rfl

theorem renewed_ledger (b : Buffer) (t : Text) : (b.renewed t).ledger =
    ⟨t, { group := b.history.group.map ({ · with actions := [] }), limit := b.history.limit }⟩ := by
  rw [renewed, ledger_run]
  cases hg : b.history.group with
  | none => simp [History.depth, hg]; rfl
  | some g =>
    have hd : b.history.depth = g.inner + 1 := by simp [History.depth, hg]
    rw [hd, Ledger.run_beginGroups rfl]
    rfl

/-- Without edits in an open group, nothing is left of the history before. -/
theorem load_ledger_eq (h : b.history.holdsEdits = false) (t : Text) :
    (b.load t).ledger = (b.renewed t).ledger := by
  have hgroup : b.history.group.map ({ · with actions := [] }) = b.history.group := by
    cases hg : b.history.group with
    | none => rfl
    | some g =>
      obtain ⟨description, inner, actions⟩ := g
      have ha : actions = [] := by simpa [History.holdsEdits, hg] using h
      rw [ha]
      rfl
  rw [load_ledger, renewed_ledger, hgroup]
  rfl

theorem run_savedText {ops : List Op} (h : ∀ op ∈ ops, op = .endGroup ∨ op = .undo) :
    (b.run ops).savedText = b.savedText := by
  induction ops generalizing b with
  | nil => rfl
  | cons op ops ih =>
    obtain ⟨hop, hops⟩ := List.forall_mem_cons.1 h
    refine (ih (b := b.step op) hops).trans (b.step_savedText ?_ ?_)
    · rintro t rfl
      simp at hop
    · rintro rfl
      simp at hop

/-- A loaded text stands, if closing the groups brings no step to undo. -/
theorem settled_of_past_nil (n : Nat)
    (hp : ((b.load t).ledger.run (List.replicate b.history.depth .endGroup)).history.past = []) :
    let b' := ((b.load t).run (List.replicate b.history.depth .endGroup)).run
      (List.replicate n .undo)
    b'.text = t ∧ b'.history.canUndo = false ∧ b'.isModified = false := by
  intro b'
  have hledger : b'.ledger = (b.load t).ledger.run (List.replicate b.history.depth .endGroup) := by
    rw [ledger_run, ledger_run, Ledger.run_undos_nil hp]
  have htext : b'.text = t := by
    have h : b'.ledger.text = (b.load t).ledger.text := by rw [hledger, Ledger.run_endGroups_text]
    exact h
  have hpast : b'.history.past = [] := by
    have h : b'.ledger.history.past = [] := by rw [hledger, hp]
    exact h
  have hsaved : b'.savedText = t := by
    rw [run_savedText fun op hop => .inr (List.eq_of_mem_replicate hop),
      run_savedText fun op hop => .inl (List.eq_of_mem_replicate hop)]
    rfl
  exact ⟨htext, by simp [History.canUndo, hpast], by simp [isModified, htext, hsaved]⟩

theorem loadsAnew_of_not_holdsEdits (h : b.history.holdsEdits = false) (t : Text) :
    b.LoadsAnew t where
  settled n := by
    apply settled_of_past_nil
    cases hg : b.history.group with
    | none => simp [History.depth, hg, load_ledger, History.clear]
    | some g =>
      have hd : b.history.depth = g.inner + 1 := by simp [History.depth, hg]
      have ha : g.actions = [] := by simpa [History.holdsEdits, hg] using h
      rw [hd, Ledger.run_endGroups hg, Ledger.endGroup_empty (g := { g with inner := 0 }) rfl rfl ha]
      rfl
  anew ops := by
    intro b' new
    have hledger : b'.ledger = new.ledger := by
      rw [ledger_run, ledger_run, load_ledger_eq h]
    exact ⟨congrArg Ledger.text hledger, congrArg (·.history.past) hledger,
      congrArg (·.history.future) hledger⟩

theorem loadsAnew_of_limit (h : b.history.limit ≤ 0) (t : Text) : b.LoadsAnew t := by
  have hload : (b.load t).ledger.Forgetful := ⟨h, rfl, rfl⟩
  have hnew : (b.renewed t).ledger.Forgetful := by
    rw [renewed_ledger]
    exact ⟨h, rfl, rfl⟩
  have htext : (b.load t).ledger.text = (b.renewed t).ledger.text := by
    rw [renewed_ledger]
    rfl
  refine ⟨fun n => settled_of_past_nil n (hload.run _).past, fun ops => ?_⟩
  intro b' new
  have hb' : b'.ledger.Forgetful := (b.load t).ledger_run ops ▸ hload.run ops
  have hnew' : new.ledger.Forgetful := (b.renewed t).ledger_run ops ▸ hnew.run ops
  have ht : b'.ledger.text = new.ledger.text := by
    rw [ledger_run, ledger_run]
    exact hload.run_text hnew htext ops
  exact ⟨ht, hb'.past.trans hnew'.past.symm, hb'.future.trans hnew'.future.symm⟩

theorem canUndo_of_holdsEdits (h : b.history.holdsEdits = true) (hl : 0 < b.history.limit)
    (t : Text) :
    ((b.load t).run (List.replicate b.history.depth .endGroup)).history.canUndo = true := by
  cases hg : b.history.group with
  | none => simp [History.holdsEdits, hg] at h
  | some g =>
    have hd : b.history.depth = g.inner + 1 := by simp [History.depth, hg]
    have ha : g.actions ≠ [] := by simpa [History.holdsEdits, hg] using h
    have hone : ¬ b.history.limit < 1 := by omega
    have hledger := (b.load t).ledger_run (List.replicate b.history.depth .endGroup)
    rw [hd, Ledger.run_endGroups hg,
      Ledger.endGroup_push (g := { g with inner := 0 }) rfl rfl ha] at hledger
    have hhistory := congrArg Ledger.history hledger
    simp only [ledger] at hhistory
    rw [hd, hhistory]
    simp [History.canUndo, History.push, History.trim, load, setText, changed, History.clear, hone]

end

/-- **Loading drops the steps before it** exactly if no open group holds an edit, or no step is ever
kept. -/
theorem load_anew_iff (b : Buffer) (t : Text) :
    b.LoadsAnew t ↔ b.history.limit ≤ 0 ∨ b.history.holdsEdits = false := by
  constructor
  · intro h
    by_cases hl : b.history.limit ≤ 0
    · exact .inl hl
    · right
      obtain ⟨-, hundo, -⟩ := h.settled 0
      cases he : b.history.holdsEdits with
      | false => rfl
      | true => exact absurd (hundo.symm.trans (canUndo_of_holdsEdits he (by omega) t)) nofun
  · rintro (hl | he)
    · exact loadsAnew_of_limit hl t
    · exact loadsAnew_of_not_holdsEdits he t

/-- A text loaded while a group holds an edit: closing the group makes a step of the edit, and undoing
it takes a character out of the new text. -/
theorem load_keeps_open_group :
    let b := (ofText [97] 20 100).run [.beginGroup [103], .replace (.ofInt 0) (.ofInt 0) [120]]
    let closed := (b.load [97, 98]).run [.endGroup]
    closed.text = [97, 98] ∧ closed.history.canUndo = true ∧
      (closed.run [.undo]).text = [98] ∧ (closed.run [.undo]).isModified = true ∧
      ¬ b.LoadsAnew [97, 98] := by
  intro b closed
  refine ⟨by decide, by decide, by decide, by decide, fun h => ?_⟩
  have hundo : closed.history.canUndo = false := (h.settled 0).2.1
  revert hundo
  decide

end Buffer

end ModalEditor
