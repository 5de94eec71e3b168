import ModalEditor.Proofs.Buffer.Operation

/-!
# The ledger of a buffer

What undo and redo do depends on the text and the history alone, the *ledger* of a buffer; the cursor,
the version and the watchers have no part in it. `Ledger.step` performs an operation on a ledger, and
`Buffer.ledger_run` says that the ledger of a buffer goes through a run of operations that way. What is
said of histories over whole runs is said of ledgers.
-/

namespace ModalEditor

/-- A group is open and holds an edit. -/
def History.holdsEdits {ε : Type} (h : History ε) : Bool :=
  h.group.elim false fun g => !g.actions.isEmpty

/-- A text with its history. -/
structure Ledger where
  text : Text
  history : History Splice

namespace Ledger

def splice (s : Ledger) (e : Splice) : Ledger :=
  ⟨e.apply s.text, s.history.record (.edit (describeChange e.removed e.inserted) e.start e)⟩

def step (s : Ledger) : Buffer.Op → Ledger
  | .replace start stop inserted =>
    match s.text.range? start stop with
    | none => s
    | some (i, j) => if i = j ∧ inserted = [] then s else s.splice (.of s.text i j inserted)
  | .beginGroup description => { s with history := s.history.beginGroup description }
  | .endGroup => { s with history := s.history.endGroup?.elim s.history Prod.fst }
  | .undo => s.history.undo?.elim s fun r => ⟨r.1.revert Splice.undo s.text, r.2⟩
  | .redo => s.history.redo?.elim s fun r => ⟨r.1.perform Splice.apply s.text, r.2⟩
  | .load t => ⟨t, s.history.clear⟩
  | .setCursor _ | .markSaved | .setPageLines _ | .subscribe _ | .unsubscribe _ => s

def run (s : Ledger) (ops : List Buffer.Op) : Ledger := ops.foldl step s

@[simp] theorem run_nil (s : Ledger) : s.run [] = s := rfl
@[simp] theorem run_cons (s : Ledger) (op : Buffer.Op) (ops : List Buffer.Op) :
    s.run (op :: ops) = (s.step op).run ops := rfl

theorem run_append (s : Ledger) (ops ops' : List Buffer.Op) :
    s.run (ops ++ ops') = (s.run ops).run ops' :=
  List.foldl_append

/-! ## One operation -/

section
variable {s : Ledger}

section
variable {start stop : Decimal} {inserted : Text}

theorem replace_of_none (hr : s.text.range? start stop = none) :
    s.step (.replace start stop inserted) = s := by
  simp [step, hr]

theorem replace_of_empty {i j : Nat} (hr : s.text.range? start stop = some (i, j))
    (he : i = j ∧ inserted = []) : s.step (.replace start stop inserted) = s := by
  simp [step, hr, he]

theorem replace_of_some {i j : Nat} (hr : s.text.range? start stop = some (i, j))
    (he : ¬ (i = j ∧ inserted = [])) :
    s.step (.replace start stop inserted) = s.splice (.of s.text i j inserted) := by
  simp only [step, hr, if_neg he]

end

theorem replace_cases (s : Ledger) (start stop : Decimal) (inserted : Text) :
    s.step (.replace start stop inserted) = s ∨
      ∃ e : Splice, e.Fits s.text ∧ s.step (.replace start stop inserted) = s.splice e := by
  cases hr : s.text.range? start stop with
  | none => exact .inl (replace_of_none hr)
  | some r =>
    obtain ⟨i, j⟩ := r
    obtain ⟨hij, hj⟩ := Text.range?_le hr
    by_cases he : i = j ∧ inserted = []
    · exact .inl (replace_of_empty hr he)
    · exact .inr ⟨_, Splice.of_fits inserted hij hj, replace_of_some hr he⟩

theorem endGroup_of_none (hg : s.history.group = none) : s.step .endGroup = s := by
  simp [step, History.endGroup?, hg]

theorem endGroup_inner {g : OpenGroup Splice} (hg : s.history.group = some g) (hi : g.inner ≠ 0) :
    s.step .endGroup =
      ⟨s.text, { s.history with group := some { g with inner := g.inner - 1 } }⟩ := by
  simp [step, History.endGroup?_inner hg hi]

theorem endGroup_empty {g : OpenGroup Splice} (hg : s.history.group = some g) (hi : g.inner = 0)
    (ha : g.actions = []) : s.step .endGroup = ⟨s.text, { s.history with group := none }⟩ := by
  simp [step, History.endGroup?_outermost hg hi, ha]

theorem endGroup_push {g : OpenGroup Splice} (hg : s.history.group = some g) (hi : g.inner = 0)
    (ha : g.actions ≠ []) : s.step .endGroup =
      ⟨s.text, { s.history with group := none }.push (.batch g.description g.actions)⟩ := by
  simp [step, History.endGroup?_outermost hg hi, ha]

theorem undo_nil (hp : s.history.past = []) : s.step .undo = s := by
  simp [step, History.undo?, hp]

theorem undo_cons {a : Action Splice} {past : List (Action Splice)}
    (hp : s.history.past = a :: past) : s.step .undo = ⟨a.revert Splice.undo s.text,
      { s.history with past, future := a :: s.history.future }⟩ := by
  simp [step, History.undo?, hp]

theorem redo_nil (hf : s.history.future = []) : s.step .redo = s := by
  simp [step, History.redo?, hf]

theorem redo_cons {a : Action Splice} {future : List (Action Splice)}
    (hf : s.history.future = a :: future) : s.step .redo = ⟨a.perform Splice.apply s.text,
      { s.history with past := a :: s.history.past, future }⟩ := by
  simp [step, History.redo?, hf]

theorem splice_of_none (hg : s.history.group = none) (e : Splice) : s.splice e =
    ⟨e.apply s.text, { s.history with group := none }.push
      (.edit (describeChange e.removed e.inserted) e.start e)⟩ := by
  have hclosed : { s.history with group := none } = s.history := by rw [← hg]
  rw [splice, History.record_of_none hg, hclosed]

theorem splice_of_some {g : OpenGroup Splice} (hg : s.history.group = some g) (e : Splice) :
    s.splice e = ⟨e.apply s.text, { s.history with group := some { g with actions := g.actions ++
      [.edit (describeChange e.removed e.inserted) e.start e] } }⟩ := by
  rw [splice, History.record_of_some hg]

/-- **What an operation may do**: nothing, make a step, something within groups or at their bounds,
undo, redo, or load a text. -/
theorem step_cases {P : Ledger → Prop} (s : Ledger) (op : Buffer.Op) (same : P s)
    (push : ∀ t a, P ⟨t, { s.history with group := none }.push a⟩)
    (regroup : ∀ t g, P ⟨t, { s.history with group := g }⟩)
    (undo : ∀ a past, s.history.past = a :: past → P ⟨a.revert Splice.undo s.text,
      { s.history with past, future := a :: s.history.future }⟩)
    (redo : ∀ a future, s.history.future = a :: future → P ⟨a.perform Splice.apply s.text,
      { s.history with past := a :: s.history.past, future }⟩)
    (load : ∀ t, P ⟨t, s.history.clear⟩) : P (s.step op) := by
  cases op with
  | replace start stop inserted =>
    obtain h | ⟨e, -, h⟩ := s.replace_cases start stop inserted
    · rw [h]
      exact same
    · rw [h]
      cases hg : s.history.group with
      | none =>
        rw [splice_of_none hg]
        exact push _ _
      | some g =>
        rw [splice_of_some hg]
        exact regroup _ _
  | beginGroup d =>
    cases hg : s.history.group with
    | none =>
      rw [step, History.beginGroup_of_none hg]
      exact regroup _ _
    | some g =>
      rw [step, History.beginGroup_of_some hg]
      exact regroup _ _
  | endGroup =>
    cases hg : s.history.group with
    | none =>
      rw [endGroup_of_none hg]
      exact same
    | some g =>
      by_cases hi : g.inner = 0
      · by_cases ha : g.actions = []
        · rw [endGroup_empty hg hi ha]
          exact regroup _ _
        · rw [endGroup_push hg hi ha]
          exact push _ _
      · rw [endGroup_inner hg hi]
        exact regroup _ _
  | undo =>
    cases hp : s.history.past with
    | nil =>
      rw [undo_nil hp]
      exact same
    | cons a past =>
      rw [undo_cons hp]
      exact undo a past hp
  | redo =>
    cases hf : s.history.future with
    | nil =>
      rw [redo_nil hf]
      exact same
    | cons a future =>
      rw [redo_cons hf]
      exact redo a future hf
  | load t => exact load t
  | _ => exact same

theorem step_limit (s : Ledger) (op : Buffer.Op) :
    (s.step op).history.limit = s.history.limit := by
  apply step_cases (P := fun s' => s'.history.limit = s.history.limit)
  case same => rfl
  case push | undo | redo => exact fun _ _ => by intros; rfl
  case regroup => exact fun _ _ => rfl
  case load => exact fun _ => rfl

end

end Ledger

/-! ## The ledger of a buffer -/

namespace Buffer

/-- The text of a buffer with its history. -/
def ledger (b : Buffer) : Ledger := ⟨b.text, b.history⟩

theorem ledger_step (b : Buffer) (op : Op) : (b.step op).ledger = b.ledger.step op := by
  cases op with
  | replace start stop inserted =>
    simp only [step, replaceDecimal_eq, Ledger.step, ledger]
    cases b.text.range? start stop with
    | none => rfl
    | some r =>
      dsimp only
      split <;> rfl
  | setCursor c => simp [step, ledger, Ledger.step]
  | endGroup =>
    simp only [step, endGroup, Ledger.step, ledger]
    cases b.history.endGroup? with
    | none => rfl
    | some r =>
      obtain ⟨history, pushed⟩ := r
      cases pushed <;> rfl
  | undo =>
    rw [step]
    cases hp : b.history.past with
    | nil => rw [undo_of_past_nil hp, Ledger.undo_nil hp]
    | cons a past =>
      obtain ⟨ht, hh, -⟩ := undo_cons hp
      rw [Ledger.undo_cons (s := b.ledger) hp, ledger, ht, hh]
      rfl
  | redo =>
    rw [step]
    cases hf : b.history.future with
    | nil => rw [redo_of_future_nil hf, Ledger.redo_nil hf]
    | cons a future =>
      obtain ⟨ht, hh, -⟩ := redo_cons hf
      rw [Ledger.redo_cons (s := b.ledger) hf, ledger, ht, hh]
      rfl
  | _ => rfl

/-- The text and the history of a buffer go through a run by themselves. -/
theorem ledger_run (b : Buffer) (ops : List Op) : (b.run ops).ledger = b.ledger.run ops := by
  induction ops generalizing b with
  | nil => rfl
  | cons op ops ih =>
    have h : (b.run (op :: ops)).ledger = (b.step op).ledger.run ops := ih (b.step op)
    rw [h, ledger_step, Ledger.run_cons]

end Buffer

end ModalEditor
