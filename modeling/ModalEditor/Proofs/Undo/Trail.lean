import ModalEditor.Undo.History
import ModalEditor.Undo.Splice

/-!
# What the actions of a history lead to

`Action.Leads a s t`: performing `a` on the text `s` gives `t`, and reverting it on `t` gives `s`
back. An edit leads from every text it fits (`Action.leads_edit`), and a batch leads as far as its
parts do one after the other (`LeadsAll`). `Trail R as s ts` says that the actions `as`, the next
one first, take the text `s` through the texts `ts`: the past of a history is a trail of actions to
be reverted, its future a trail of actions to be performed.
-/

namespace ModalEditor

namespace Action

variable {ε σ τ : Type}

/-! ## Actions on two states at once -/

mutual

/-- An action keeps two states related if every edit does. -/
theorem perform_related {R : σ → τ → Prop} {act : ε → σ → σ} {act' : ε → τ → τ}
    (h : ∀ e s t, R s t → R (act e s) (act' e t)) :
    ∀ (a : Action ε) (s : σ) (t : τ), R s t → R (a.perform act s) (a.perform act' t)
  | .edit _ _ e, s, t, hst => by simp only [perform]; exact h e s t hst
  | .batch _ parts, s, t, hst => by simp only [perform]; exact performAll_related h parts s t hst

theorem performAll_related {R : σ → τ → Prop} {act : ε → σ → σ} {act' : ε → τ → τ}
    (h : ∀ e s t, R s t → R (act e s) (act' e t)) :
    ∀ (as : List (Action ε)) (s : σ) (t : τ), R s t →
      R (performAll act as s) (performAll act' as t)
  | [], _, _, hst => hst
  | a :: as, s, t, hst => by
    simp only [performAll]
    exact performAll_related h as _ _ (perform_related h a s t hst)

end

mutual

theorem revert_related {R : σ → τ → Prop} {undo : ε → σ → σ} {undo' : ε → τ → τ}
    (h : ∀ e s t, R s t → R (undo e s) (undo' e t)) :
    ∀ (a : Action ε) (s : σ) (t : τ), R s t → R (a.revert undo s) (a.revert undo' t)
  | .edit _ _ e, s, t, hst => by simp only [revert]; exact h e s t hst
  | .batch _ parts, s, t, hst => by simp only [revert]; exact revertAll_related h parts s t hst

theorem revertAll_related {R : σ → τ → Prop} {undo : ε → σ → σ} {undo' : ε → τ → τ}
    (h : ∀ e s t, R s t → R (undo e s) (undo' e t)) :
    ∀ (as : List (Action ε)) (s : σ) (t : τ), R s t →
      R (revertAll undo as s) (revertAll undo' as t)
  | [], _, _, hst => hst
  | a :: as, s, t, hst => by
    simp only [revertAll]
    exact revert_related h a _ _ (revertAll_related h as s t hst)

end

theorem perform_keeps {P : σ → Prop} {act : ε → σ → σ} (h : ∀ e s, P s → P (act e s))
    (a : Action ε) {s : σ} (hs : P s) : P (a.perform act s) :=
  @perform_related ε σ Unit (fun s _ => P s) act (fun _ u => u) (fun e s _ => h e s) a s () hs

theorem revert_keeps {P : σ → Prop} {undo : ε → σ → σ} (h : ∀ e s, P s → P (undo e s))
    (a : Action ε) {s : σ} (hs : P s) : P (a.revert undo s) :=
  @revert_related ε σ Unit (fun s _ => P s) undo (fun _ u => u) (fun e s _ => h e s) a s () hs

/-! ## From one text to another -/

/-- The action makes `t` of `s`, and reverting it makes `s` of `t`. -/
def Leads (a : Action Splice) (s t : Text) : Prop :=
  a.perform Splice.apply s = t ∧ a.revert Splice.undo t = s

/-- The actions, first to last, make `t` of `s`, and reverting them makes `s` of `t`. -/
def LeadsAll (as : List (Action Splice)) (s t : Text) : Prop :=
  performAll Splice.apply as s = t ∧ revertAll Splice.undo as t = s

theorem leads_edit {s : Splice} {t : Text} (h : s.Fits t) (description : Text) (position : Int) :
    (edit description position s).Leads t (s.apply t) :=
  ⟨by simp only [perform], by simp only [revert]; exact Splice.undo_apply h⟩

theorem leads_batch {as : List (Action Splice)} {s t : Text} (h : LeadsAll as s t)
    (description : Text) : (batch description as).Leads s t :=
  ⟨by simp only [perform]; exact h.1, by simp only [revert]; exact h.2⟩

theorem leadsAll_nil (s : Text) : LeadsAll [] s s := ⟨rfl, rfl⟩

theorem LeadsAll.concat {as : List (Action Splice)} {a : Action Splice} {s t u : Text}
    (h : LeadsAll as s t) (ha : a.Leads t u) : LeadsAll (as ++ [a]) s u := by
  constructor
  · rw [performAll_append, h.1]
    simp only [performAll]
    exact ha.1
  · rw [revertAll_append]
    simp only [revertAll]
    rw [ha.2, h.2]

theorem leadsAll_singleton {a : Action Splice} {s t : Text} (h : a.Leads s t) : LeadsAll [a] s t :=
  (leadsAll_nil s).concat h

end Action

/-! ## Trails -/

/-- The actions take the text through the texts, each of them by a step of the relation. -/
inductive Trail (R : Action Splice → Text → Text → Prop) : List (Action Splice) → Text →
    List Text → Prop where
  | nil {s : Text} : Trail R [] s []
  | cons {a : Action Splice} {as : List (Action Splice)} {s t : Text} {ts : List Text} :
      R a s t → Trail R as t ts → Trail R (a :: as) s (t :: ts)

namespace Trail

variable {R R' : Action Splice → Text → Text → Prop} {as : List (Action Splice)} {s : Text}
  {ts : List Text}

theorem length_eq (h : Trail R as s ts) : as.length = ts.length := by
  induction h with
  | nil => rfl
  | cons _ _ ih => rw [List.length_cons, List.length_cons, ih]

theorem dropLast (h : Trail R as s ts) : Trail R as.dropLast s ts.dropLast := by
  induction h with
  | nil => exact .nil
  | cons hr ht ih =>
    cases ht with
    | nil => exact .nil
    | cons hr' ht' => exact .cons hr ih

end Trail

/-- The actions of the past lead back from a text through older and older ones. -/
def Behind : List (Action Splice) → Text → List Text → Prop := Trail fun a s t => a.Leads t s

/-- The actions of the future lead on from a text. -/
def Ahead : List (Action Splice) → Text → List Text → Prop := Trail fun a s t => a.Leads s t

namespace History

variable {ε : Type} {h : History ε}

/-! ## Groups -/

theorem record_of_none (hg : h.group = none) (a : Action ε) : h.record a = h.push a := by
  unfold record
  rw [hg]

theorem record_of_some {g : OpenGroup ε} (hg : h.group = some g) (a : Action ε) :
    h.record a = { h with group := some { g with actions := g.actions ++ [a] } } := by
  unfold record
  rw [hg]

theorem beginGroup_of_none (hg : h.group = none) (d : Text) :
    h.beginGroup d = { h with group := some { description := d } } := by
  unfold beginGroup
  rw [hg]

theorem beginGroup_of_some {g : OpenGroup ε} (hg : h.group = some g) (d : Text) :
    h.beginGroup d = { h with group := some { g with inner := g.inner + 1 } } := by
  unfold beginGroup
  rw [hg]

theorem endGroup?_outermost {g : OpenGroup ε} (hg : h.group = some g) (hi : g.inner = 0) :
    h.endGroup? = some (if g.actions.isEmpty then ({ h with group := none }, false)
      else ({ h with group := none }.push (.batch g.description g.actions), true)) := by
  unfold endGroup?
  rw [hg]
  dsimp only
  rw [if_pos hi]
  split <;> rfl

theorem endGroup?_inner {g : OpenGroup ε} (hg : h.group = some g) (hi : g.inner ≠ 0) :
    h.endGroup? = some ({ h with group := some { g with inner := g.inner - 1 } }, false) := by
  unfold endGroup?
  rw [hg]
  exact if_neg hi

theorem group_eq_none_of_depth (hd : h.depth = 0) : h.group = none := by
  unfold depth at hd
  cases hg : h.group with
  | none => rfl
  | some g => simp [hg] at hd

/-! ## Trimming -/

/-- A new action leaves the newest ones below it, as far as the limit goes. -/
theorem push_past_append {steps rest : List (Action ε)} (hp : h.past = steps ++ rest)
    (hl : (steps.length : Int) + 1 ≤ h.limit) (a : Action ε) :
    ∃ rest', (h.push a).past = a :: steps ++ rest' := by
  unfold push trim
  rw [hp]
  dsimp only
  split
  · rename_i hlong
    have hne : rest ≠ [] := by
      rintro rfl
      simp only [List.append_nil, List.length_cons] at hlong
      omega
    refine ⟨rest.dropLast, ?_⟩
    rw [← List.cons_append, List.dropLast_append_of_ne_nil hne]
  · exact ⟨rest, rfl⟩

theorem push_past (hl : 1 ≤ h.limit) (a : Action ε) : ∃ past, (h.push a).past = a :: past :=
  push_past_append (List.nil_append h.past).symm hl a

theorem trim_trail {R : Action Splice → Text → Text → Prop} {as : List (Action Splice)} {s : Text}
    {ts : List Text} (limit : Nat) (h : Trail R as s ts) :
    Trail R (trim limit as) s (if limit < ts.length then ts.dropLast else ts) := by
  unfold trim
  rw [h.length_eq]
  by_cases hl : limit < ts.length
  · rw [if_pos hl, if_pos (by exact_mod_cast hl)]
    exact h.dropLast
  · rw [if_neg hl, if_neg (by exact_mod_cast hl)]
    exact h

end History

end ModalEditor
