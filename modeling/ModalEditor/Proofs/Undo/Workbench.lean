import ModalEditor.Proofs.Undo.Batches
import ModalEditor.Undo.Workbench

/-!
# Undo and redo on a workbench

A workbench keeps its draft and its history in step (`Workbench.Sound`): the actions of the past lead
back from the text of the draft, one text after the other, and those of the future lead on, and for all
of them the draft keeps what they remove. New actions, undo and redo preserve it (`Workbench.Step`),
and a group that is closed is one action more, the batch of its actions (`Workbench.endGroup?_executeAll`).

So on every workbench that comes about, undo takes back the action done last, redo does the action
undone last again, and each of them gives back the draft and the history before the other
(`Workbench.Reachable.travels`).
-/

namespace ModalEditor

/-! ## From text to text -/

namespace Replacement

/-- The replacements make `t` of `s`, one after the other, and what they remove there is kept. -/
structure Leads (removed : Nat → Option Text) (rs : List Replacement) (s t : Text) : Prop where
  fit : FitAll rs s
  kept : Kept removed rs s
  result : results rs s = t

variable {removed removed' : Nat → Option Text} {rs : List Replacement} {s t : Text}

theorem Kept.mono (hkeep : ∀ slot x, removed slot = some x → removed' slot = some x)
    (h : Kept removed rs s) : Kept removed' rs s := by
  induction rs generalizing s with
  | nil => trivial
  | cons r rs ih => exact ⟨hkeep _ _ h.1, ih h.2⟩

end Replacement

namespace Action

variable {removed removed' : Nat → Option Text} {as : List (Action Replacement)} {t : Text}

/-- The actions, the next one first, lead back from the text. -/
def AllBehind (removed : Nat → Option Text) : List (Action Replacement) → Text → Prop
  | [], _ => True
  | a :: as, t => ∃ s, Replacement.Leads removed a.edits s t ∧ AllBehind removed as s

/-- The actions, the next one first, lead on from the text. -/
def AllAhead (removed : Nat → Option Text) : List (Action Replacement) → Text → Prop
  | [], _ => True
  | a :: as, s => ∃ t, Replacement.Leads removed a.edits s t ∧ AllAhead removed as t

theorem AllBehind.mono (hkeep : ∀ slot x, removed slot = some x → removed' slot = some x)
    (h : AllBehind removed as t) : AllBehind removed' as t := by
  induction as generalizing t with
  | nil => trivial
  | cons a as ih =>
    obtain ⟨s, hleads, hrest⟩ := h
    exact ⟨s, ⟨hleads.fit, hleads.kept.mono hkeep, hleads.result⟩, ih hrest⟩

theorem AllBehind.dropLast (h : AllBehind removed as t) : AllBehind removed as.dropLast t := by
  induction as generalizing t with
  | nil => trivial
  | cons a as ih =>
    obtain ⟨s, hleads, hrest⟩ := h
    cases as with
    | nil => trivial
    | cons b as => exact ⟨s, hleads, ih hrest⟩

end Action

/-! ## One step -/

namespace Workbench

variable {w w' : Workbench} {a : Action Replacement}

/-- Draft and history are in step. -/
structure Sound (w : Workbench) : Prop where
  behind : Action.AllBehind w.draft.removed w.history.past w.draft.text
  ahead : Action.AllAhead w.draft.removed w.history.future w.draft.text

/-- The action was never performed, has no replacement twice, and fits the draft. -/
structure Ready (w : Workbench) (a : Action Replacement) : Prop where
  slots : (a.edits.map Replacement.slot).Nodup
  new : ∀ r ∈ a.edits, w.draft.removed r.slot = none
  fit : Replacement.FitAll a.edits w.draft.text

theorem undo_of_leads {past : List (Action Replacement)} {s : Text} (h : w.history.past = a :: past)
    (hleads : Replacement.Leads w.draft.removed a.edits s w.draft.text) :
    w.undo.2 = some a ∧ w.undo.1.draft = { w.draft with text := s } ∧
      w.undo.1.history = { w.history with past, future := a :: w.history.future } := by
  unfold undo History.undo?
  rw [h]
  refine ⟨rfl, ?_, rfl⟩
  show (a.revert Replacement.revert w.draft) = _
  rw [Action.revert_eq, Replacement.revertAll_of_kept hleads.fit hleads.kept hleads.result.symm]

theorem redo_of_leads {future : List (Action Replacement)} {t : Text}
    (h : w.history.future = a :: future)
    (hleads : Replacement.Leads w.draft.removed a.edits w.draft.text t) :
    w.redo.2 = some a ∧ w.redo.1.draft = { w.draft with text := t } ∧
      w.redo.1.history = { w.history with past := a :: w.history.past, future } := by
  unfold redo History.redo?
  rw [h]
  refine ⟨rfl, ?_, rfl⟩
  show (a.perform Replacement.perform w.draft) = _
  rw [Action.perform_eq, Replacement.performAll_of_kept hleads.kept, hleads.result]

theorem Ready.leads (ha : w.Ready a) :
    Replacement.Leads (w.execute a).draft.removed a.edits w.draft.text (w.execute a).draft.text ∧
      ∀ slot x, w.draft.removed slot = some x → (w.execute a).draft.removed slot = some x := by
  have hdraft : (w.execute a).draft = a.edits.foldl (fun d r => r.perform d) w.draft :=
    Action.perform_eq ..
  rw [hdraft]
  exact ⟨⟨ha.fit, Replacement.kept_performAll ha.slots ha.new, (Replacement.text_performAll ..).symm⟩,
    fun slot x hx => Replacement.removed_performAll_of_some hx _⟩

/-- A new action makes what it is to make, and undo takes it back if the history has room for it. -/
theorem Sound.execute (h : w.Sound) (hg : w.history.group = none) (ha : w.Ready a) :
    (w.execute a).Sound ∧ (w.execute a).draft.text = Replacement.results a.edits w.draft.text ∧
      (1 ≤ w.history.limit → (w.execute a).undo.2 = some a ∧
        (w.execute a).undo.1.draft.text = w.draft.text) := by
  obtain ⟨hleads, hkeep⟩ := ha.leads
  have hhistory : (w.execute a).history = w.history.push a := History.record_of_none hg a
  have hbehind : Action.AllBehind (w.execute a).draft.removed (a :: w.history.past)
      (w.execute a).draft.text := ⟨w.draft.text, hleads, h.behind.mono hkeep⟩
  refine ⟨⟨?_, by rw [hhistory]; trivial⟩, hleads.result.symm, fun hl => ?_⟩
  · rw [hhistory]
    unfold History.push History.trim
    dsimp only
    split
    · exact hbehind.dropLast
    · exact hbehind
  · obtain ⟨past, hpast⟩ := History.push_past hl a
    rw [← hhistory] at hpast
    obtain ⟨hundone, hdraft, -⟩ := undo_of_leads hpast hleads
    exact ⟨hundone, by rw [hdraft]⟩

theorem Sound.undo {past : List (Action Replacement)} (h : w.Sound)
    (hpast : w.history.past = a :: past) :
    w.undo.1.Sound ∧ w.undo.1.redo.1.draft = w.draft ∧ w.undo.1.redo.1.history = w.history := by
  have hbehind := h.behind
  rw [hpast] at hbehind
  obtain ⟨s, hleads, hrest⟩ := hbehind
  obtain ⟨-, hdraft, hhistory⟩ := undo_of_leads hpast hleads
  have hback : Replacement.Leads w.undo.1.draft.removed a.edits w.undo.1.draft.text w.draft.text := by
    rwa [hdraft]
  obtain ⟨-, hdraft', hhistory'⟩ := redo_of_leads (by rw [hhistory]) hback
  refine ⟨⟨by rwa [hdraft, hhistory], ?_⟩, by rw [hdraft', hdraft], ?_⟩
  · rw [hdraft, hhistory]
    exact ⟨w.draft.text, hleads, h.ahead⟩
  · rw [hhistory', hhistory]
    dsimp only
    rw [← hpast]

theorem Sound.redo {future : List (Action Replacement)} (h : w.Sound)
    (hfuture : w.history.future = a :: future) :
    w.redo.1.Sound ∧ w.redo.1.undo.1.draft = w.draft ∧ w.redo.1.undo.1.history = w.history := by
  have hahead := h.ahead
  rw [hfuture] at hahead
  obtain ⟨t, hleads, hrest⟩ := hahead
  obtain ⟨-, hdraft, hhistory⟩ := redo_of_leads hfuture hleads
  have hback : Replacement.Leads w.redo.1.draft.removed a.edits w.draft.text w.redo.1.draft.text := by
    rwa [hdraft]
  obtain ⟨-, hdraft', hhistory'⟩ := undo_of_leads (by rw [hhistory]) hback
  refine ⟨⟨?_, by rwa [hdraft, hhistory]⟩, by rw [hdraft', hdraft], ?_⟩
  · rw [hdraft, hhistory]
    exact ⟨w.draft.text, hleads, h.behind⟩
  · rw [hhistory', hhistory]
    dsimp only
    rw [← hfuture]

/-! ## Groups -/

/-- In a group, actions are performed and collected. -/
theorem executeAll_of_group {g : OpenGroup Replacement} (hg : w.history.group = some g)
    (as : List (Action Replacement)) :
    (as.foldl execute w).draft = Action.performAll Replacement.perform as w.draft ∧
      (as.foldl execute w).history =
        { w.history with group := some { g with actions := g.actions ++ as } } := by
  induction as generalizing w g with
  | nil =>
    refine ⟨rfl, ?_⟩
    rw [List.append_nil, ← hg]
    rfl
  | cons a as ih =>
    have hhistory : (w.execute a).history =
        { w.history with group := some { g with actions := g.actions ++ [a] } } :=
      History.record_of_some hg a
    obtain ⟨hdraft, hrest⟩ := ih (w := w.execute a) (by rw [hhistory])
    refine ⟨hdraft.trans ?_, hrest.trans ?_⟩
    · rw [Action.performAll]
      rfl
    · rw [hhistory, List.append_assoc]
      rfl

/-- **A group is one action**: closed, it leaves what its batch would have left. -/
theorem endGroup?_executeAll (hg : w.history.group = none) (description : Text)
    {as : List (Action Replacement)} (has : as ≠ []) :
    ∃ closed, (as.foldl execute (w.beginGroup description)).endGroup? = some closed ∧
      closed.draft = (w.execute (.batch description as)).draft ∧
      closed.history = (w.execute (.batch description as)).history := by
  have hopen : (w.beginGroup description).history =
      { w.history with group := some { description } } := History.beginGroup_of_none hg description
  have hclosed : ({ w.history with group := none } : History Replacement) = w.history := by
    rw [← hg]
  obtain ⟨hdraft, hhistory⟩ := executeAll_of_group (by rw [hopen]) as
  have hend : (as.foldl execute (w.beginGroup description)).history.endGroup? =
      some (w.history.push (.batch description as), true) := by
    have hsome : ¬ ([] ++ as).isEmpty = true := by simpa using has
    rw [hhistory, hopen, History.endGroup?_outermost rfl rfl]
    dsimp only
    rw [if_neg hsome, List.nil_append, hclosed]
  refine ⟨_, by rw [endGroup?, hend]; rfl, ?_, ?_⟩
  · show (as.foldl execute (w.beginGroup description)).draft =
      (Action.batch description as).perform Replacement.perform w.draft
    rw [hdraft, Action.perform]
    rfl
  · exact (History.record_of_none hg _).symm

/-! ## Every workbench -/

/-- What may be done with a workbench outside of groups; a whole group is one of the actions. -/
inductive Step (w : Workbench) : Workbench → Prop
  | execute {a : Action Replacement} (free : w.history.group = none) (ready : w.Ready a) :
      Step w (w.execute a)
  | group {description : Text} {as : List (Action Replacement)} {closed : Workbench}
      (free : w.history.group = none) (nonempty : as ≠ []) (ready : w.Ready (.batch description as))
      (ends : (as.foldl Workbench.execute (w.beginGroup description)).endGroup? = some closed) :
      Step w closed
  | undo : Step w w.undo.1
  | redo : Step w w.redo.1
  | clear : Step w w.clear
  | prepare (slots : Nat) (made : List (Text × Action Replacement)) (watchers : List (Watcher Unit)) :
      Step w { w with slots, made, watchers }

theorem Sound.step (h : w.Sound) (hs : w.Step w') : w'.Sound := by
  cases hs with
  | execute free ready => exact (h.execute free ready).1
  | group free nonempty ready ends =>
    obtain ⟨closed, hends, hdraft, hhistory⟩ := endGroup?_executeAll free _ nonempty
    obtain rfl := Option.some.inj (ends.symm.trans hends)
    obtain ⟨hbehind, hahead⟩ := (h.execute free ready).1
    exact ⟨by rwa [hdraft, hhistory], by rwa [hdraft, hhistory]⟩
  | undo =>
    cases hpast : w.history.past with
    | nil =>
      have hnone : w.undo = (w, none) := by
        unfold Workbench.undo History.undo?
        rw [hpast]
      rwa [hnone]
    | cons a past => exact (h.undo hpast).1
  | redo =>
    cases hfuture : w.history.future with
    | nil =>
      have hnone : w.redo = (w, none) := by
        unfold Workbench.redo History.redo?
        rw [hfuture]
      rwa [hnone]
    | cons a future => exact (h.redo hfuture).1
  | clear => exact ⟨trivial, trivial⟩
  | prepare => exact ⟨h.behind, h.ahead⟩

/-- The workbenches that come about. -/
inductive Reachable : Workbench → Prop
  | start (text : Text) (limit : Int) : Reachable (ofText text limit)
  | step {w w' : Workbench} : Reachable w → w.Step w' → Reachable w'

theorem Reachable.sound (h : Reachable w) : w.Sound := by
  induction h with
  | start => exact ⟨trivial, trivial⟩
  | step _ hs ih => exact ih.step hs

/-- **Undo and redo on every workbench.** What was undone is done again by redo and the other way
round, each of which gives back draft and history as they were before the other. A new action that is
undone gives back the text, if the history has room for it. -/
theorem Reachable.travels (h : Reachable w) :
    (w.history.canUndo = true → w.undo.1.redo.1.draft = w.draft ∧
      w.undo.1.redo.1.history = w.history) ∧
    (w.history.canRedo = true → w.redo.1.undo.1.draft = w.draft ∧
      w.redo.1.undo.1.history = w.history) ∧
    ∀ a, w.history.group = none → 1 ≤ w.history.limit → w.Ready a →
      (w.execute a).draft.text = Replacement.results a.edits w.draft.text ∧
        (w.execute a).undo.1.draft.text = w.draft.text := by
  refine ⟨fun hundo => ?_, fun hredo => ?_, fun a hg hl ha => ?_⟩
  · cases hpast : w.history.past with
    | nil => simp [History.canUndo, hpast] at hundo
    | cons a past => exact (h.sound.undo hpast).2
  · cases hfuture : w.history.future with
    | nil => simp [History.canRedo, hfuture] at hredo
    | cons a future => exact (h.sound.redo hfuture).2
  · obtain ⟨-, htext, hundone⟩ := h.sound.execute hg ha
    exact ⟨htext, (hundone hl).2⟩

end Workbench

end ModalEditor
