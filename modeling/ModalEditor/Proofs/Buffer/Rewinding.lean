import ModalEditor.Proofs.Buffer.Ledger

/-!
# Undoing everything

A buffer is undone as far as it goes by undo after undo, until one finds no step: `Buffer.RewindsTo`
says where that leads. `Buffer.run_rewinds`: from a new buffer, whatever is edited, undone and redone,
with groups opened and closed in any order, undoing everything gives the first text again, as long as
no step was forgotten and no undo or redo reached past the edits of an open group
(`Buffer.reachesPastGroup`). The steps in the history say how to get from text to text; the edits that
an open group holds are not among them yet, so that an older step does not fit the text.

The invariant is `Ledger.Rooted`: the past leads back from the text at which the open group began to
the first text.
-/

namespace ModalEditor

namespace Buffer

/-- The operation makes a step that can be undone. -/
def recordsStep (b : Buffer) : Op → Bool
  | .replace start stop inserted =>
    b.history.group.isNone &&
      (b.text.range? start stop).any fun r => !(r.1 = r.2 && inserted.isEmpty)
  | .endGroup => b.history.depth = 1 && b.history.holdsEdits
  | _ => false

/-- Undo or redo finds a step while an open group holds an edit. -/
def reachesPastGroup (b : Buffer) : Op → Bool
  | .undo => b.history.holdsEdits && b.history.canUndo
  | .redo => b.history.holdsEdits && b.history.canRedo
  | _ => false

/-- The operations of a run, each with the buffer that it finds. -/
def turns (b : Buffer) : List Op → List (Buffer × Op)
  | [] => []
  | op :: ops => (b, op) :: (b.step op).turns ops

/-- How many steps a run makes. -/
def stepsRecorded (b : Buffer) (ops : List Op) : Nat :=
  (b.turns ops).countP fun r => r.1.recordsStep r.2

/-- Undo after undo leads to the text `t`, and there finds no more step. -/
def RewindsTo (b : Buffer) (t : Text) : Prop :=
  ∃ n, (∀ i < n, (b.run (List.replicate i .undo)).undo.2.isSome = true) ∧
    (b.run (List.replicate n .undo)).undo.2 = none ∧ (b.run (List.replicate n .undo)).text = t

end Buffer

/-! ## The invariant -/

/-- The edits an open group has collected lead from the text `now` to the text `t`. -/
def Gathered (g : Option (OpenGroup Splice)) (now t : Text) : Prop :=
  match g with
  | none => t = now
  | some g => Action.LeadsAll g.actions now t

/-- The past leads back from `now` through the texts `before`, the last of which is `first`, and the
future leads on through `after`; there are at most `n` steps. -/
structure Ledger.Rooted (first : Text) (n : Nat) (s : Ledger) (before : List Text) (now : Text)
    (after : List Text) : Prop where
  past : Behind s.history.past now before
  root : (now :: before).getLast? = some first
  future : Ahead s.history.future now after
  bound : before.length + after.length ≤ n
  group : Gathered s.history.group now s.text

namespace Ledger.Rooted

variable {first : Text} {n n' : Nat} {s : Ledger} {before : List Text} {now t : Text}
  {after : List Text}

theorem start (t : Text) (limit : Int) : Rooted t 0 ⟨t, { limit }⟩ [] t [] where
  past := .nil
  root := rfl
  future := .nil
  bound := Nat.le_refl 0
  group := rfl

theorem mono (h : Rooted first n s before now after) (hn : n ≤ n') :
    Rooted first n' s before now after where
  past := h.past
  root := h.root
  future := h.future
  bound := Nat.le_trans h.bound hn
  group := h.group

theorem regroup (h : Rooted first n s before now after) {g : Option (OpenGroup Splice)}
    (hg : Gathered g now t) : Rooted first n ⟨t, { s.history with group := g }⟩ before now after where
  past := h.past
  root := h.root
  future := h.future
  bound := h.bound
  group := hg

/-- Where no group holds an edit, the steps of the history meet the text. -/
theorem text_eq (h : Rooted first n s before now after) (he : s.history.holdsEdits = false) :
    s.text = now ∧ ∀ t, Gathered s.history.group t t := by
  have hg := h.group
  cases hs : s.history.group with
  | none =>
    rw [hs] at hg
    exact ⟨hg, fun t => rfl⟩
  | some g =>
    have ha : g.actions = [] := by simpa [History.holdsEdits, hs] using he
    rw [hs, Gathered, ha] at hg
    exact ⟨hg.1.symm, fun t => by rw [Gathered, ha]; exact Action.leadsAll_nil t⟩

theorem push (h : Rooted first n s before now after) (hl : (n : Int) + 1 ≤ s.history.limit)
    {a : Action Splice} (ha : a.Leads now t) :
    Rooted first (n + 1) ⟨t, { s.history with group := none }.push a⟩ (now :: before) t [] := by
  have hlen : s.history.past.length = before.length := h.past.length_eq
  have hbound := h.bound
  have htrim : History.trim s.history.limit (a :: s.history.past) = a :: s.history.past := by
    apply if_neg
    rw [List.length_cons]
    omega
  refine ⟨?_, ?_, .nil, ?_, rfl⟩
  · show Behind (History.trim s.history.limit (a :: s.history.past)) t _
    rw [htrim]
    exact .cons ha h.past
  · rw [List.getLast?_cons_cons]
    exact h.root
  · simp only [List.length_cons, List.length_nil]
    omega

/-! ## One operation -/

theorem splice (h : Rooted first n s before now after) (hg : s.history.group = none)
    (hl : (n : Int) + 1 ≤ s.history.limit) {e : Splice} (he : e.Fits s.text) :
    Rooted first (n + 1) (s.splice e) (now :: before) (e.apply s.text) [] := by
  have hnow : s.text = now := by
    have hgroup := h.group
    rw [hg] at hgroup
    exact hgroup
  have ha := Action.leads_edit he (describeChange e.removed e.inserted) e.start
  rw [Ledger.splice_of_none hg]
  rw [hnow] at ha ⊢
  exact h.push hl ha

theorem collect (h : Rooted first n s before now after) {g : OpenGroup Splice}
    (hg : s.history.group = some g) {e : Splice} (he : e.Fits s.text) :
    Rooted first n (s.splice e) before now after := by
  have ha := Action.leads_edit he (describeChange e.removed e.inserted) e.start
  have hgroup := h.group
  rw [hg] at hgroup
  have hconcat : Gathered (some { g with actions := g.actions ++ [_] }) now (e.apply s.text) :=
    Action.LeadsAll.concat hgroup ha
  rw [Ledger.splice_of_some hg]
  exact h.regroup hconcat

theorem beginGroup (h : Rooted first n s before now after) (d : Text) :
    Rooted first n (s.step (.beginGroup d)) before now after := by
  have hg := h.group
  cases hs : s.history.group with
  | none =>
    rw [hs] at hg
    have ht : s.text = now := hg
    rw [Ledger.step, History.beginGroup_of_none hs]
    exact h.regroup (ht ▸ Action.leadsAll_nil _)
  | some g =>
    rw [hs] at hg
    rw [Ledger.step, History.beginGroup_of_some hs]
    exact h.regroup hg

theorem endGroup_inner {g : OpenGroup Splice} (h : Rooted first n s before now after)
    (hg : s.history.group = some g) (hi : g.inner ≠ 0) :
    Rooted first n (s.step .endGroup) before now after := by
  have hgroup := h.group
  rw [hg] at hgroup
  rw [Ledger.endGroup_inner hg hi]
  exact h.regroup hgroup

theorem endGroup_empty {g : OpenGroup Splice} (h : Rooted first n s before now after)
    (hg : s.history.group = some g) (hi : g.inner = 0) (ha : g.actions = []) :
    Rooted first n (s.step .endGroup) before now after := by
  have he : s.history.holdsEdits = false := by simp [History.holdsEdits, hg, ha]
  rw [Ledger.endGroup_empty hg hi ha]
  exact h.regroup (h.text_eq he).1

theorem endGroup_push {g : OpenGroup Splice} (h : Rooted first n s before now after)
    (hl : (n : Int) + 1 ≤ s.history.limit) (hg : s.history.group = some g) (hi : g.inner = 0)
    (ha : g.actions ≠ []) :
    Rooted first (n + 1) (s.step .endGroup) (now :: before) s.text [] := by
  have hgroup := h.group
  rw [hg] at hgroup
  rw [Ledger.endGroup_push hg hi ha]
  exact h.push hl (Action.leads_batch hgroup g.description)

theorem undo_cons (h : Rooted first n s (t :: before) now after)
    (he : s.history.holdsEdits = false) : Rooted first n (s.step .undo) before t (now :: after) := by
  obtain ⟨ht, hgroup⟩ := h.text_eq he
  have hpast := h.past
  generalize hp : s.history.past = past at hpast
  cases hpast with
  | cons ha hpast =>
    have hbound := h.bound
    have hroot := h.root
    simp only [List.length_cons] at hbound
    rw [List.getLast?_cons_cons] at hroot
    rw [Ledger.undo_cons hp, ht, ha.2]
    refine ⟨hpast, hroot, .cons ha h.future, ?_, hgroup t⟩
    rw [List.length_cons]
    omega

theorem redo_cons (h : Rooted first n s before now (t :: after))
    (he : s.history.holdsEdits = false) : Rooted first n (s.step .redo) (now :: before) t after := by
  obtain ⟨ht, hgroup⟩ := h.text_eq he
  have hfuture := h.future
  generalize hf : s.history.future = future at hfuture
  cases hfuture with
  | cons ha hfuture =>
    have hbound := h.bound
    simp only [List.length_cons] at hbound
    rw [Ledger.redo_cons hf, ht, ha.1]
    refine ⟨.cons ha h.past, ?_, hfuture, ?_, hgroup t⟩
    · rw [List.getLast?_cons_cons]
      exact h.root
    · rw [List.length_cons]
      omega

theorem past_eq_nil (h : Rooted first n s [] now after) : s.history.past = [] :=
  List.eq_nil_of_length_eq_zero h.past.length_eq

theorem past_ne_nil (h : Rooted first n s (t :: before) now after) : s.history.past ≠ [] :=
  List.ne_nil_of_length_eq_add_one h.past.length_eq

theorem undo (h : Rooted first n s before now after)
    (hr : (s.history.holdsEdits && s.history.canUndo) = false) :
    ∃ before now after, Rooted first n (s.step .undo) before now after := by
  cases before with
  | nil =>
    rw [Ledger.undo_nil h.past_eq_nil]
    exact ⟨_, _, _, h⟩
  | cons t before =>
    have he : s.history.holdsEdits = false := by simpa [History.canUndo, h.past_ne_nil] using hr
    exact ⟨_, _, _, h.undo_cons he⟩

theorem redo (h : Rooted first n s before now after)
    (hr : (s.history.holdsEdits && s.history.canRedo) = false) :
    ∃ before now after, Rooted first n (s.step .redo) before now after := by
  cases after with
  | nil =>
    rw [Ledger.redo_nil (List.eq_nil_of_length_eq_zero h.future.length_eq)]
    exact ⟨_, _, _, h⟩
  | cons t after =>
    have hf : s.history.future ≠ [] := List.ne_nil_of_length_eq_add_one h.future.length_eq
    have he : s.history.holdsEdits = false := by simpa [History.canRedo, hf] using hr
    exact ⟨_, _, _, h.redo_cons he⟩

end Ledger.Rooted

/-! ## Runs -/

namespace Buffer

variable {first : Text} {n : Nat} {b : Buffer} {before : List Text} {now : Text} {after : List Text}

theorem step_rooted (h : b.ledger.Rooted first n before now after) {op : Op}
    (hload : ∀ t, op ≠ .load t) (hreach : b.reachesPastGroup op = false)
    (hl : (n : Int) + (if b.recordsStep op then 1 else 0 : Nat) ≤ b.history.limit) :
    ∃ before now after, (b.step op).ledger.Rooted first (n + if b.recordsStep op then 1 else 0)
      before now after := by
  rw [ledger_step]
  have same : ∀ {s : Ledger} {before now after}, s.Rooted first n before now after →
      ∃ before now after, s.Rooted first (n + if b.recordsStep op then 1 else 0) before now after :=
    fun h => ⟨_, _, _, h.mono (Nat.le_add_right n _)⟩
  cases op with
  | replace start stop inserted =>
    cases hr : b.text.range? start stop with
    | none =>
      rw [Ledger.replace_of_none hr]
      exact same h
    | some r =>
      obtain ⟨i, j⟩ := r
      obtain ⟨hij, hj⟩ := Text.range?_le hr
      have he := Splice.of_fits inserted hij hj
      by_cases hi : i = j ∧ inserted = []
      · rw [Ledger.replace_of_empty hr hi]
        exact same h
      · rw [Ledger.replace_of_some hr hi]
        cases hg : b.history.group with
        | none =>
          have hone : b.recordsStep (.replace start stop inserted) = true := by
            simpa [recordsStep, hg, hr, ← Decidable.not_and_iff_not_or_not] using hi
          rw [if_pos hone] at hl ⊢
          exact ⟨_, _, _, h.splice hg hl he⟩
        | some g => exact same (h.collect hg he)
  | beginGroup d => exact same (h.beginGroup d)
  | endGroup =>
    cases hg : b.history.group with
    | none =>
      rw [Ledger.endGroup_of_none hg]
      exact same h
    | some g =>
      by_cases hi : g.inner = 0
      · by_cases ha : g.actions = []
        · exact same (h.endGroup_empty hg hi ha)
        · have hone : b.recordsStep .endGroup = true := by
            simp [recordsStep, History.depth, History.holdsEdits, hg, hi, ha]
          rw [if_pos hone] at hl ⊢
          exact ⟨_, _, _, h.endGroup_push hl hg hi ha⟩
      · exact same (h.endGroup_inner hg hi)
  | undo =>
    obtain ⟨_, _, _, h⟩ := h.undo hreach
    exact same h
  | redo =>
    obtain ⟨_, _, _, h⟩ := h.redo hreach
    exact same h
  | load t => exact absurd rfl (hload t)
  | _ => exact same h

theorem run_rooted (h : b.ledger.Rooted first n before now after) {ops : List Op}
    (hload : ∀ t, .load t ∉ ops) (hreach : ∀ r ∈ b.turns ops, r.1.reachesPastGroup r.2 = false)
    (hl : (n : Int) + b.stepsRecorded ops ≤ b.history.limit) :
    ∃ n before now after, (b.run ops).ledger.Rooted first n before now after := by
  induction ops generalizing b n before now after with
  | nil => exact ⟨_, _, _, _, h⟩
  | cons op ops ih =>
    have hcount : b.stepsRecorded (op :: ops) =
        (b.step op).stepsRecorded ops + if b.recordsStep op then 1 else 0 := List.countP_cons ..
    have hlimit : (b.step op).history.limit = b.history.limit := by
      have hs := b.ledger.step_limit op
      rw [← ledger_step] at hs
      exact hs
    rw [hcount] at hl
    rw [turns, List.forall_mem_cons] at hreach
    obtain ⟨_, _, _, h⟩ := step_rooted h (fun t ht => hload t (ht ▸ List.mem_cons_self)) hreach.1
      (by omega)
    exact ih h (fun t ht => hload t (List.mem_cons_of_mem _ ht)) hreach.2 (by omega)

/-- With every group closed, undoing everything goes back through the past to its root. -/
theorem rewinds (h : b.ledger.Rooted first n before now after) (hg : b.history.group = none) :
    b.RewindsTo first := by
  induction before generalizing b now after with
  | nil =>
    have hp : b.history.past = [] := h.past_eq_nil
    have hgroup := h.group
    have hroot := h.root
    rw [show b.ledger.history.group = none from hg] at hgroup
    rw [List.getLast?_singleton, Option.some_inj] at hroot
    refine ⟨0, nofun, ?_, hgroup.trans hroot⟩
    exact congrArg Prod.snd (undo_of_past_nil hp)
  | cons t before ih =>
    obtain ⟨a, past, hp⟩ := List.exists_cons_of_ne_nil h.past_ne_nil
    obtain ⟨-, hhistory, hsome⟩ := undo_cons (b := b) hp
    have he : b.history.holdsEdits = false := by simp [History.holdsEdits, hg]
    have hundo : (b.step .undo).ledger.Rooted first n before t (now :: after) := by
      rw [ledger_step]
      exact h.undo_cons he
    obtain ⟨m, hsteps, hnone, htext⟩ := ih hundo (by rw [step, hhistory, hg])
    refine ⟨m + 1, fun i hi => ?_, hnone, htext⟩
    cases i with
    | zero => exact Option.isSome_of_eq_some hsome
    | succ i => exact hsteps i (Nat.lt_of_succ_lt_succ hi)

/-- **Undoing everything gives the first text**: after every run of edits, groups, undo and redo on a
new buffer that makes at most as many steps as are kept, in which no undo and no redo reaches past
the edits of an open group, once every group is closed. -/
theorem run_rewinds (t : Text) (pageLines maxHistory : Int) {ops : List Op}
    (hload : ∀ t', .load t' ∉ ops)
    (hsteps : ((ofText t pageLines maxHistory).stepsRecorded ops : Int) ≤ maxHistory)
    (hreach : ∀ r ∈ (ofText t pageLines maxHistory).turns ops, r.1.reachesPastGroup r.2 = false)
    (hclosed : ((ofText t pageLines maxHistory).run ops).history.depth = 0) :
    ((ofText t pageLines maxHistory).run ops).RewindsTo t := by
  have hstart : (ofText t pageLines maxHistory).ledger.Rooted t 0 [] t [] :=
    .start t maxHistory
  have hroom : ((0 : Nat) : Int) + (ofText t pageLines maxHistory).stepsRecorded ops ≤
      (ofText t pageLines maxHistory).history.limit := by
    rw [Int.natCast_zero, Int.zero_add]
    exact hsteps
  obtain ⟨n, before, now, after, h⟩ := run_rooted hstart hload hreach hroom
  exact rewinds h (History.group_eq_none_of_depth hclosed)

/-- An undo and a redo in an open group that holds no edit yet. -/
theorem run_rewinds_of_empty_group :
    let b := ofText [97, 98] 20 2
    let ops := [.replace (.ofInt 0) (.ofInt 1) [120], .beginGroup [103], .undo, .redo,
      .replace (.ofInt 1) (.ofInt 2) [], .endGroup]
    b.stepsRecorded ops = 2 ∧ (b.run ops).text = [120] ∧ (b.run ops).RewindsTo [97, 98] :=
  ⟨by decide, by decide, run_rewinds _ _ _ (by simp) (by decide) (by decide) (by decide)⟩

/-- An undo in a group that holds an edit: the step before the group is undone where it does not fit,
and undoing everything ends in another text. -/
theorem undo_in_group_misses :
    let b := ofText [97, 98, 99] 20 100
    let ops := [.replace (.ofInt 0) (.ofInt 1) [], .beginGroup [103],
      .replace (.ofInt 0) (.ofInt 1) [], .undo, .endGroup]
    b.stepsRecorded ops = 2 ∧ (b.run ops).history.depth = 0 ∧
      (b.run (ops ++ [.undo])).text = [98, 97, 99] ∧ (b.run (ops ++ [.undo])).undo.2 = none ∧
      ¬ (b.run ops).RewindsTo [97, 98, 99] := by
  intro b ops
  have hfirst : (b.run ops).text ≠ [97, 98, 99] := by decide
  have hsecond : (b.run (ops ++ [.undo])).text ≠ [97, 98, 99] := by decide
  have hnone : (b.run (ops ++ [.undo])).undo.2 = none := by decide
  refine ⟨by decide, by decide, by decide, hnone, ?_⟩
  rintro ⟨n, hsteps, -, htext⟩
  obtain _ | _ | n := n
  · exact hfirst htext
  · exact hsecond htext
  · have hone := hsteps 1 (by omega)
    exact absurd (hnone ▸ hone) nofun

end Buffer

end ModalEditor
