import ModalEditor.Proofs.Buffer.Operation

/-!
# The timeline of a buffer

A buffer's history holds actions, not texts. A `Timeline` holds the texts: snapshots, oldest first,
and the index of the one that stands in the buffer. A `Chronicle` keeps a timeline under the same
operations as a buffer, by the snapshots alone: undo and redo move the index, an edit outside of any
group and an outermost group with an edit append a snapshot, and loading starts anew.

`Buffer.run_timeline`: under every run of operations in which undo, redo and load are called for
only while no group is open, the buffer shows its chronicle's timeline (`Timeline.Shows`) whenever no
group is open. The invariant is `Follows`: the actions of the past lead back through the snapshots
before the index, those of the future on through the ones after it, and the actions collected by an
open group from the snapshot at the index to the text.
-/

namespace ModalEditor

/-- Snapshots of a text, oldest first, and the index of the one that stands now. -/
structure Timeline where
  snapshots : List Text
  index : Nat
deriving DecidableEq

namespace Timeline

def start (t : Text) : Timeline := ⟨[t], 0⟩

/-- The snapshot that stands now. -/
def current (tl : Timeline) : Text := tl.snapshots.getD tl.index []

/-- One step back, if there is one. -/
def undo (tl : Timeline) : Timeline := { tl with index := tl.index - 1 }

/-- One step on, if there is one. -/
def redo (tl : Timeline) : Timeline :=
  { tl with index := min (tl.index + 1) (tl.snapshots.length - 1) }

/-- A new snapshot: those after the index are dropped, and the oldest one if there would be more
than `m` steps. -/
def append (m : Nat) (t : Text) (tl : Timeline) : Timeline :=
  let kept := tl.snapshots.take (tl.index + 1) ++ [t]
  let kept := if m < tl.index + 1 then kept.tail else kept
  ⟨kept, kept.length - 1⟩

end Timeline

/-- A timeline, the text now, how many groups are open, and whether there was an edit in them. -/
structure Chronicle where
  timeline : Timeline
  text : Text
  depth : Nat := 0
  edited : Bool := false

namespace Chronicle

def start (t : Text) : Chronicle := { timeline := .start t, text := t }

/-- A new text: a new snapshot, or a change within the open group. -/
def edit (m : Nat) (t : Text) (c : Chronicle) : Chronicle :=
  if c.depth = 0 then { c with text := t, timeline := c.timeline.append m t }
  else { c with text := t, edited := true }

/-- The chronicle after an operation on the buffer. -/
def step (m : Nat) (c : Chronicle) : Buffer.Op → Chronicle
  | .replace start stop inserted =>
    match c.text.range? start stop with
    | none => c
    | some (i, j) =>
      if i = j ∧ inserted = [] then c else c.edit m (c.text.take i ++ inserted ++ c.text.drop j)
  | .beginGroup _ => { c with depth := c.depth + 1 }
  | .endGroup =>
    if c.depth = 1 ∧ c.edited then
      { timeline := c.timeline.append m c.text, text := c.text }
    else { c with depth := c.depth - 1 }
  | .undo => { c with timeline := c.timeline.undo, text := c.timeline.undo.current }
  | .redo => { c with timeline := c.timeline.redo, text := c.timeline.redo.current }
  | .load t => start t
  | _ => c

def run (m : Nat) (c : Chronicle) (ops : List Buffer.Op) : Chronicle := ops.foldl (step m) c

end Chronicle

namespace Buffer

/-- Undo, redo and load: the operations that leave the present text behind. -/
def Op.isJump : Op → Bool
  | .undo | .redo | .load _ => true
  | _ => false

/-- How many groups are open after an operation. -/
def Op.depthAfter (n : Nat) : Op → Nat
  | .beginGroup _ => n + 1
  | .endGroup => n - 1
  | _ => n

/-- With `n` groups open, undo, redo and load are called for only while none is. -/
def orderly : Nat → List Op → Bool
  | _, [] => true
  | n, op :: ops => (!op.isJump || n == 0) && orderly (op.depthAfter n) ops

end Buffer

theorem Chronicle.depth_step {c : Chronicle} {op : Buffer.Op}
    (h : op.isJump = true → c.depth = 0) (m : Nat) :
    (c.step m op).depth = op.depthAfter c.depth := by
  cases op with
  | replace start stop inserted =>
    simp only [Chronicle.step]
    split
    · rfl
    · split
      · rfl
      · unfold Chronicle.edit
        split <;> rfl
  | endGroup =>
    simp only [Chronicle.step]
    split
    · rename_i hc
      rw [Buffer.Op.depthAfter, hc.1]
    · rfl
  | load t => exact (h rfl).symm
  | _ => rfl

/-! ## What a timeline shows -/

/-- The buffer stands at the index of the timeline, of at most `m` steps, and can go back and on to
exactly its other snapshots. -/
structure Timeline.Shows (m : Nat) (tl : Timeline) (b : Buffer) : Prop where
  index_lt : tl.index < tl.snapshots.length
  length_le : tl.snapshots.length ≤ m + 1
  text : tl.snapshots[tl.index]? = some b.text
  past : b.history.past.length = tl.index
  future : b.history.future.length = tl.snapshots.length - 1 - tl.index
  undo : 0 < tl.index →
    b.undo.2.isSome ∧ tl.snapshots[tl.index - 1]? = some b.undo.1.text
  undo_first : tl.index = 0 → b.undo = (b, none)
  redo : tl.index + 1 < tl.snapshots.length →
    b.redo.2.isSome ∧ tl.snapshots[tl.index + 1]? = some b.redo.1.text
  redo_last : tl.index + 1 = tl.snapshots.length → b.redo = (b, none)

/-- What is no edit changes nothing: a group without one, a range that is refused, and the end of a
group that is not open. -/
structure Buffer.Unmoved (b : Buffer) : Prop where
  group : ∀ description, (b.step (.beginGroup description)).step .endGroup = b
  range : ∀ start stop inserted, b.text.range? start stop = none →
    b.replaceDecimal start stop inserted = .error (.invalidRange start stop b.text.length) ∧
      b.step (.replace start stop inserted) = b
  ending : b.history.depth = 0 → b.endGroup = .error .noOpenGroup ∧ b.step .endGroup = b

theorem Buffer.unmoved (b : Buffer) : b.Unmoved where
  group d := by
    show ((b.beginGroup d).endGroup).toOption.getD _ = b
    rw [endGroup_beginGroup]
    rfl
  range start stop inserted h := by
    have he : b.replaceDecimal start stop inserted =
        .error (.invalidRange start stop b.text.length) := by rw [replaceDecimal_eq, h]
    refine ⟨he, ?_⟩
    simp only [step, he]
    rfl
  ending h := by
    have he : b.endGroup = .error .noOpenGroup := by
      simp [endGroup, History.endGroup?, History.group_eq_none_of_depth h]
    refine ⟨he, ?_⟩
    simp only [step, he]
    rfl

/-! ## The invariant -/

/-- The actions an open group has collected lead from the snapshot `now` to the text. -/
def Collected (g : Option (OpenGroup Splice)) (c : Chronicle) (now : Text) : Prop :=
  match g with
  | none => c.depth = 0 ∧ c.edited = false ∧ c.text = now
  | some g => c.depth = g.inner + 1 ∧ c.edited = !g.actions.isEmpty ∧
      Action.LeadsAll g.actions now c.text

/-- The buffer follows the chronicle, with the snapshots `before` the index, nearest first, the one
at it and those `after` it. -/
structure Follows (m : Nat) (c : Chronicle) (b : Buffer) (before : List Text) (now : Text)
    (after : List Text) : Prop where
  limit : b.history.limit = m
  text : b.text = c.text
  timeline : c.timeline = ⟨before.reverse ++ now :: after, before.length⟩
  past : Behind b.history.past now before
  future : Ahead b.history.future now after
  bound : before.length + after.length ≤ m
  group : Collected b.history.group c now

namespace Follows

variable {m : Nat} {c : Chronicle} {b b' : Buffer} {before : List Text} {now : Text}
  {after : List Text}

theorem start (t : Text) (pageLines : Int) (m : Nat) :
    Follows m (.start t) (.ofText t pageLines m) [] t [] where
  limit := rfl
  text := rfl
  timeline := rfl
  past := .nil
  future := .nil
  bound := Nat.zero_le m
  group := ⟨rfl, rfl, rfl⟩

theorem congr (h : Follows m c b before now after) (ht : b'.text = b.text)
    (hh : b'.history = b.history) : Follows m c b' before now after where
  limit := by rw [hh, h.limit]
  text := by rw [ht, h.text]
  timeline := h.timeline
  past := by rw [hh]; exact h.past
  future := by rw [hh]; exact h.future
  bound := h.bound
  group := by rw [hh]; exact h.group

theorem depth_eq (h : Follows m c b before now after) : b.history.depth = c.depth := by
  have hg := h.group
  unfold History.depth
  cases hb : b.history.group with
  | none => rw [hb] at hg; exact hg.1.symm
  | some g => rw [hb] at hg; exact hg.1.symm

/-- Outside of every group the text is the snapshot at the index. -/
theorem closed (h : Follows m c b before now after) (hc : c.depth = 0) :
    b.history.group = none ∧
      c = { timeline := ⟨before.reverse ++ now :: after, before.length⟩, text := now } := by
  obtain ⟨timeline, text, depth, edited⟩ := c
  have ht := h.timeline
  have hg := h.group
  dsimp only at hc ht
  cases hb : b.history.group with
  | none =>
    rw [hb] at hg
    obtain ⟨-, he, hn⟩ := hg
    dsimp only at he hn
    exact ⟨rfl, by rw [ht, hc, he, hn]⟩
  | some g =>
    rw [hb] at hg
    exact absurd hg.1 (by dsimp only; omega)

theorem regroup (h : Follows m c b before now after) {c' : Chronicle}
    {g : Option (OpenGroup Splice)} (hh : b'.history = { b.history with group := g })
    (ht : b'.text = c'.text) (hc : c'.timeline = c.timeline) (hg : Collected g c' now) :
    Follows m c' b' before now after where
  limit := by rw [hh]; exact h.limit
  text := ht
  timeline := by rw [hc]; exact h.timeline
  past := by rw [hh]; exact h.past
  future := by rw [hh]; exact h.future
  bound := h.bound
  group := by rw [hh]; exact hg

end Follows

/-! ## A new snapshot -/

/-- The snapshots kept before a new one, nearest first. -/
def keep (m : Nat) (before : List Text) : List Text :=
  if m < before.length then before.dropLast else before

theorem length_keep_le {m : Nat} {before : List Text} (h : before.length ≤ m + 1) :
    (keep m before).length ≤ m := by
  unfold keep
  split
  · rw [List.length_dropLast]
    omega
  · omega

theorem append_timeline (m : Nat) (t : Text) (before : List Text) (now : Text) (after : List Text) :
    Timeline.append m t ⟨before.reverse ++ now :: after, before.length⟩ =
      ⟨(keep m (now :: before)).reverse ++ [t], (keep m (now :: before)).length⟩ := by
  have htake : (before.reverse ++ now :: after).take (before.length + 1) =
      (now :: before).reverse := by
    rw [List.take_append, List.take_of_length_le (by rw [List.length_reverse]; omega),
      List.length_reverse, Nat.add_sub_cancel_left, List.reverse_cons]
    rfl
  simp only [Timeline.append, htake, keep, List.length_cons]
  split
  · have htail : ((now :: before).reverse ++ [t]).tail =
        (now :: before).dropLast.reverse ++ [t] := by
      rw [List.tail_append_of_ne_nil (by simp), List.tail_reverse]
    rw [htail]
    simp
  · simp

namespace Follows

variable {m : Nat} {c : Chronicle} {b b' : Buffer} {before : List Text} {now : Text}
  {after : List Text}

theorem push (h : Follows m c b before now after) {a : Action Splice} {t : Text}
    (ha : a.Leads now t) (ht : b'.text = t)
    (hh : b'.history = { b.history with group := none }.push a) :
    Follows m { timeline := c.timeline.append m t, text := t } b' (keep m (now :: before)) t []
    where
  limit := by rw [hh]; exact h.limit
  text := ht
  timeline := by rw [h.timeline, append_timeline]
  past := by
    rw [hh]
    show Behind (History.trim b.history.limit (a :: b.history.past)) t _
    rw [h.limit]
    exact History.trim_trail m (.cons ha h.past)
  future := by rw [hh]; exact .nil
  bound := by
    have := h.bound
    have hkept : (keep m (now :: before)).length ≤ m :=
      length_keep_le (by rw [List.length_cons]; omega)
    simpa using hkept
  group := by rw [hh]; exact ⟨rfl, rfl, rfl⟩

theorem splice (h : Follows m c b before now after) {s : Splice} (hs : s.Fits b.text) :
    ∃ before now after, Follows m (c.edit m (s.apply b.text)) (b.splice s) before now after := by
  have ha := Action.leads_edit hs (describeChange s.removed s.inserted) s.start
  have hg := h.group
  unfold Chronicle.edit
  cases hb : b.history.group with
  | none =>
    rw [hb] at hg
    obtain ⟨hd, he, hn⟩ := hg
    have hbn : b.text = now := h.text.trans hn
    rw [if_pos hd, hd, he, hbn]
    exact ⟨_, _, _, h.push (hbn ▸ ha) (by rw [Buffer.splice_text, hbn])
      ((History.record_of_none hb _).trans (by rw [← hb]))⟩
  | some g =>
    rw [hb] at hg
    obtain ⟨hd, -, hl⟩ := hg
    rw [if_neg (by omega)]
    exact ⟨before, now, after, h.regroup (History.record_of_some hb _) rfl rfl
      ⟨hd, by simp, hl.concat (h.text ▸ ha)⟩⟩

/-! ## One operation -/

theorem replace (h : Follows m c b before now after) (start stop : Decimal) (inserted : Text) :
    ∃ before now after, Follows m (c.step m (.replace start stop inserted))
      (b.step (.replace start stop inserted)) before now after := by
  simp only [Chronicle.step, Buffer.step, Buffer.replaceDecimal_eq, ← h.text]
  cases hr : b.text.range? start stop with
  | none => exact ⟨before, now, after, h⟩
  | some r =>
    obtain ⟨i, j⟩ := r
    obtain ⟨hij, hj⟩ := Text.range?_le hr
    dsimp only
    by_cases he : i = j ∧ inserted = []
    · rw [if_pos he, if_pos he]
      exact ⟨before, now, after, h⟩
    · rw [if_neg he, if_neg he, ← Splice.apply_of inserted hij hj]
      exact h.splice (Splice.of_fits inserted hij hj)

theorem beginGroup (h : Follows m c b before now after) (d : Text) :
    Follows m (c.step m (.beginGroup d)) (b.beginGroup d) before now after := by
  have hg := h.group
  cases hb : b.history.group with
  | none =>
    rw [hb] at hg
    exact h.regroup (History.beginGroup_of_none hb d) h.text rfl
      ⟨by rw [← hg.1]; rfl, hg.2.1, hg.2.2 ▸ Action.leadsAll_nil _⟩
  | some g =>
    rw [hb] at hg
    exact h.regroup (History.beginGroup_of_some hb d) h.text rfl
      ⟨by rw [← hg.1]; rfl, hg.2⟩

theorem endGroup (h : Follows m c b before now after) :
    ∃ before now after, Follows m (c.step m .endGroup) (b.step .endGroup) before now after := by
  have hg := h.group
  cases hb : b.history.group with
  | none =>
    rw [hb] at hg
    obtain ⟨hd, he, hn⟩ := hg
    have hc : c.step m .endGroup = c := by
      obtain ⟨timeline, text, depth, edited⟩ := c
      simp only [Chronicle.step]
      rw [if_neg (by rintro ⟨h1, -⟩; dsimp only at hd h1; omega)]
      dsimp only at hd ⊢
      rw [hd]
    rw [hc, (b.unmoved.ending (by simp [History.depth, hb])).2]
    exact ⟨before, now, after, h⟩
  | some g =>
    rw [hb] at hg
    obtain ⟨hd, he, hl⟩ := hg
    by_cases hi : g.inner = 0
    · have hend := History.endGroup?_outermost hb hi
      by_cases ha : g.actions.isEmpty
      · -- the group closes without a trace
        rw [if_pos ha] at hend
        have hb' : b.step .endGroup = { b with history := { b.history with group := none } } := by
          simp only [Buffer.step, Buffer.endGroup, hend]
          rfl
        have hc : c.step m .endGroup = { c with depth := 0 } := by
          simp only [Chronicle.step]
          rw [if_neg (by rw [he, ha]; simp), hd, hi]
        rw [hb', hc]
        have hs : now = c.text := by
          rw [List.isEmpty_iff.1 ha] at hl
          exact hl.1
        exact ⟨before, now, after, h.regroup rfl h.text rfl ⟨rfl, by rw [he, ha]; rfl, hs.symm⟩⟩
      · -- the group becomes one step
        rw [if_neg ha] at hend
        have hb' : b.step .endGroup = ({ b with
            history := { b.history with group := none }.push (.batch g.description g.actions) } :
            Buffer).changed := by
          simp only [Buffer.step, Buffer.endGroup, hend]
          rfl
        have hc : c.step m .endGroup =
            { timeline := c.timeline.append m c.text, text := c.text } := by
          simp only [Chronicle.step]
          rw [if_pos ⟨by omega, by rw [he]; simp [ha]⟩]
        rw [hb', hc]
        exact ⟨_, _, _, h.push (Action.leads_batch hl g.description) h.text rfl⟩
    · have hend := History.endGroup?_inner hb hi
      have hb' : b.step .endGroup = ({ b with
          history := { b.history with group := some { g with inner := g.inner - 1 } } } :
          Buffer) := by
        simp only [Buffer.step, Buffer.endGroup, hend]
        rfl
      have hc : c.step m .endGroup = { c with depth := c.depth - 1 } := by
        simp only [Chronicle.step]
        rw [if_neg (by omega)]
      rw [hb', hc]
      exact ⟨before, now, after, h.regroup rfl h.text rfl ⟨by dsimp only; omega, he, hl⟩⟩

/-! ## Back and on -/

theorem move (h : Follows m c b before now after) (hg : b.history.group = none)
    {past future : List (Action Splice)} {before' after' : List Text} {t : Text}
    (hh : b'.history = { b.history with past, future }) (ht : b'.text = t)
    (hp : Behind past t before') (hf : Ahead future t after')
    (hl : before'.length + after'.length ≤ m) :
    Follows m { timeline := ⟨before'.reverse ++ t :: after', before'.length⟩, text := t } b'
      before' t after' where
  limit := by rw [hh]; exact h.limit
  text := ht
  timeline := rfl
  past := by rw [hh]; exact hp
  future := by rw [hh]; exact hf
  bound := hl
  group := by
    have hg' : b'.history.group = none := by rw [hh]; exact hg
    rw [hg']
    exact ⟨rfl, rfl, rfl⟩

theorem undo (h : Follows m c b before now after) (hd : c.depth = 0) :
    ∃ before now after, Follows m (c.step m .undo) (b.step .undo) before now after := by
  obtain ⟨hgroup, rfl⟩ := h.closed hd
  have hpast := h.past
  cases hp : b.history.past with
  | nil =>
    rw [hp] at hpast
    cases hpast
    refine ⟨[], now, after, ?_⟩
    rw [Buffer.step, Buffer.undo_of_past_nil hp]
    exact h
  | cons a past =>
    rw [hp] at hpast
    obtain ⟨⟩ | @⟨_, _, _, t, before, ha, hpast⟩ := hpast
    obtain ⟨htext, hhist, -⟩ := Buffer.undo_cons hp
    have hstep : Chronicle.step m
        { timeline := ⟨(t :: before).reverse ++ now :: after, (t :: before).length⟩
          text := now } .undo =
        { timeline := ⟨before.reverse ++ t :: now :: after, before.length⟩, text := t } := by
      simp [Chronicle.step, Timeline.undo, Timeline.current]
    have htext' : b.undo.1.text = t := by
      rw [htext, h.text]
      exact ha.2
    have hbound := h.bound
    rw [hstep, Buffer.step]
    refine ⟨before, t, now :: after, h.move hgroup hhist htext' hpast (.cons ha h.future) ?_⟩
    simp only [List.length_cons] at hbound ⊢
    omega

theorem redo (h : Follows m c b before now after) (hd : c.depth = 0) :
    ∃ before now after, Follows m (c.step m .redo) (b.step .redo) before now after := by
  obtain ⟨hgroup, rfl⟩ := h.closed hd
  have hfuture := h.future
  cases hf : b.history.future with
  | nil =>
    rw [hf] at hfuture
    cases hfuture
    have hstep : Chronicle.step m
        { timeline := ⟨before.reverse ++ [now], before.length⟩, text := now } .redo =
        { timeline := ⟨before.reverse ++ [now], before.length⟩, text := now } := by
      simp [Chronicle.step, Timeline.redo, Timeline.current]
    rw [hstep, Buffer.step, Buffer.redo_of_future_nil hf]
    exact ⟨before, now, [], h⟩
  | cons a future =>
    rw [hf] at hfuture
    obtain ⟨⟩ | @⟨_, _, _, t, after, ha, hfuture⟩ := hfuture
    obtain ⟨htext, hhist, -⟩ := Buffer.redo_cons hf
    have hstep : Chronicle.step m
        { timeline := ⟨before.reverse ++ now :: t :: after, before.length⟩, text := now } .redo =
        { timeline := ⟨(now :: before).reverse ++ t :: after, (now :: before).length⟩
          text := t } := by
      simp [Chronicle.step, Timeline.redo, Timeline.current]
    have htext' : b.redo.1.text = t := by
      rw [htext, h.text]
      exact ha.1
    have hbound := h.bound
    rw [hstep, Buffer.step]
    refine ⟨now :: before, t, after, h.move hgroup hhist htext' (.cons ha h.past) hfuture ?_⟩
    simp only [List.length_cons] at hbound ⊢
    omega

theorem load (h : Follows m c b before now after) (hd : c.depth = 0) (t : Text) :
    Follows m (c.step m (.load t)) (b.load t) [] t [] := by
  have hh : (b.load t).history = { b.history with past := [], future := [] } := rfl
  exact h.move (h.closed hd).1 hh rfl .nil .nil (Nat.zero_le m)

/-! ## Runs -/

theorem step (h : Follows m c b before now after) {op : Buffer.Op}
    (ho : op.isJump = true → c.depth = 0) :
    ∃ before now after, Follows m (c.step m op) (b.step op) before now after := by
  cases op with
  | replace start stop inserted => exact h.replace start stop inserted
  | setCursor cursor =>
    exact ⟨before, now, after, h.congr (b.setCursor_text cursor) (b.setCursor_history cursor)⟩
  | beginGroup d => exact ⟨before, now, after, h.beginGroup d⟩
  | endGroup => exact h.endGroup
  | undo => exact h.undo (ho rfl)
  | redo => exact h.redo (ho rfl)
  | load t => exact ⟨[], t, [], h.load (ho rfl) t⟩
  | markSaved | setPageLines | subscribe | unsubscribe =>
    exact ⟨before, now, after, h.congr rfl rfl⟩

theorem run (h : Follows m c b before now after) {ops : List Buffer.Op}
    (ho : Buffer.orderly c.depth ops = true) :
    ∃ before now after, Follows m (c.run m ops) (b.run ops) before now after := by
  induction ops generalizing c b before now after with
  | nil => exact ⟨before, now, after, h⟩
  | cons op ops ih =>
    simp only [Buffer.orderly, Bool.and_eq_true, Bool.or_eq_true, Bool.not_eq_true',
      beq_iff_eq] at ho
    obtain ⟨hj, ho⟩ := ho
    have hjump : op.isJump = true → c.depth = 0 := fun hop => by
      rcases hj with hj | hj
      · rw [hop] at hj
        cases hj
      · exact hj
    obtain ⟨before, now, after, h'⟩ := h.step hjump
    exact ih h' (by rw [Chronicle.depth_step hjump]; exact ho)

/-- Outside of every group the buffer shows the timeline. -/
theorem shows (h : Follows m c b before now after) (hd : c.depth = 0) : c.timeline.Shows m b := by
  obtain ⟨-, rfl⟩ := h.closed hd
  have hpast : b.history.past.length = before.length := h.past.length_eq
  have hfuture : b.history.future.length = after.length := h.future.length_eq
  have hbound := h.bound
  refine ⟨?_, ?_, ?_, hpast, ?_, fun hi => ?_, fun hi => ?_, fun hi => ?_, fun hi => ?_⟩
  · simp
  · simp only [List.length_append, List.length_reverse, List.length_cons]
    omega
  · simp [h.text]
  · simp [hfuture]
  · cases hp : b.history.past with
    | nil =>
      rw [hp] at hpast
      exact absurd hi (by simp [← hpast])
    | cons a past =>
      have hb := h.past
      rw [hp] at hb
      obtain ⟨⟩ | @⟨_, _, _, t, before, ha, -⟩ := hb
      obtain ⟨htext, -, hoffset⟩ := Buffer.undo_cons hp
      rw [hoffset, htext, h.text, ha.2]
      exact ⟨rfl, by simp⟩
  · apply Buffer.undo_of_past_nil
    rw [← List.length_eq_zero_iff, hpast]
    exact hi
  · cases hf : b.history.future with
    | nil =>
      rw [hf] at hfuture
      exact absurd hi (by simp [← hfuture])
    | cons a future =>
      have hb := h.future
      rw [hf] at hb
      obtain ⟨⟩ | @⟨_, _, _, t, after, ha, -⟩ := hb
      obtain ⟨htext, -, hoffset⟩ := Buffer.redo_cons hf
      rw [hoffset, htext, h.text, ha.1]
      exact ⟨rfl, by simp⟩
  · apply Buffer.redo_of_future_nil
    rw [← List.length_eq_zero_iff, hfuture]
    simpa using hi

end Follows

/-! ## The timeline of a run -/

/-- **A buffer is its timeline.** After every orderly run from a new buffer, the chronicle counts the
open groups and has the text; outside of every group the buffer shows the chronicle's timeline of at
most `m` steps, and loading leaves nothing but the new text; and what is no edit changes nothing. -/
theorem Buffer.run_timeline (text : Text) (pageLines : Int) (m : Nat) (ops : List Op)
    (h : orderly 0 ops = true) :
    let b := (ofText text pageLines m).run ops
    let c := (Chronicle.start text).run m ops
    b.history.depth = c.depth ∧ b.text = c.text ∧
      (c.depth = 0 → c.timeline.Shows m b ∧
        ∀ t, (Timeline.start t).Shows m (b.load t) ∧ (b.load t).cursor = ⟨0, 0⟩) ∧
      b.Unmoved := by
  intro b c
  obtain ⟨before, now, after, hf⟩ := (Follows.start text pageLines m).run h
  refine ⟨hf.depth_eq, hf.text, fun hd => ⟨hf.shows hd, fun t => ⟨?_, ?_⟩⟩, b.unmoved⟩
  · exact (hf.load hd t).shows rfl
  · rw [Buffer.load, Buffer.setText_cursor]
    exact Cursor.clampTo_of_inside ⟨⟨by simp, by simp⟩, by simp, by simp⟩

/-- At most one step is kept: after a `b` put in and a group that takes it out again, the group is
undone. -/
theorem Buffer.run_timeline_of_one_step :
    let ops : List Op := [.replace ⟨0, 0⟩ ⟨0, 0⟩ [98], .beginGroup [], .replace ⟨0, 0⟩ ⟨1, 0⟩ [],
      .endGroup, .undo]
    orderly 0 ops = true ∧
      Timeline.Shows 1 ⟨[[98, 97], [97]], 0⟩ ((ofText [97] 20 1).run ops) := by
  intro ops
  have horderly : orderly 0 ops = true := by decide
  exact ⟨horderly, ((run_timeline [97] 20 1 ops horderly).2.2.1 (by decide)).1⟩

end ModalEditor
