import ModalEditor.Proofs.Modal.Reading

/-!
# Keys and undo steps

A key other than undo makes at most one step of the history (`Desk.offer_one_step`). What it makes
is a step worth the name (`Buffer.OneStep`): undoing it gives the text before the key and the place
where the two texts part, and redoing it gives the text after the key. A key that makes no step
leaves the text alone, and with it everything that can be undone and redone.
-/

namespace ModalEditor

namespace Buffer

variable {b b' : Buffer}

/-- From `b` to `b'` the history has grown by one step. -/
structure OneStep (b b' : Buffer) : Prop where
  grown : ∃ a, b'.history = b.history.push a
  future : b'.history.future = []
  /-- It can be undone, and before the offset that undo returns the texts agree. -/
  undone : ∃ p : Nat, b'.undo.2 = some (p : Int) ∧ b'.undo.1.text = b.text ∧
    p ≤ b.text.length ∧ p ≤ b'.text.length ∧ b.text.take p = b'.text.take p
  redone : b'.undo.1.redo.2.isSome ∧ b'.undo.1.redo.1.text = b'.text

theorem oneStep_of_push {a : Action Splice} {e : Edit} (hl : 1 ≤ b.history.limit)
    (hh : b'.history = b.history.push a) (ha : a.Leads b.text b'.text)
    (hp : a.position? = some e.start) (hf : e.Fits b.text) (ht : b'.text = e.result b.text) :
    b.OneStep b' := by
  obtain ⟨past, hpast⟩ := History.push_past hl a
  rw [← hh] at hpast
  obtain ⟨hundo, hundone, hoffset⟩ := undo_cons hpast
  rw [ha.2] at hundo
  have hfuture : b'.undo.1.history.future = a :: b'.history.future := by rw [hundone]
  obtain ⟨hredo, -, hredone⟩ := redo_cons hfuture
  have hstart : ((e.start.toNat : Nat) : Int) = e.start := Int.toNat_of_nonneg hf.start_nonneg
  have hle : e.start.toNat ≤ b.text.length := by
    have := hf.start_le
    have := hf.stop_le
    omega
  have hlength : (b.text.take e.start.toNat).length = e.start.toNat := by
    rw [List.length_take, Nat.min_eq_left hle]
  refine ⟨⟨a, hh⟩, by rw [hh]; rfl, ⟨e.start.toNat, ?_, hundo, hle, ?_, ?_⟩, ?_, ?_⟩
  · rw [hoffset, hundo, hp, Option.getD_some, hstart,
      Text.clamp_of_mem hf.start_nonneg (by omega)]
  · rw [ht, hf.result_eq, List.length_append, List.length_append, hlength]
    omega
  · rw [ht, hf.result_eq, List.append_assoc, List.take_left' hlength]
  · rw [hredone]
    rfl
  · rw [hredo, hundo, ha.1]

theorem make_one_step {ch : Change} (hu : ch ≠ .undo) (hf : ch.Fits b.text)
    (hg : b.history.group = none) (hl : 1 ≤ b.history.limit) :
    ∃ b', b.make ch = .ok b' ∧
      (b'.text = b.text ∧ b'.history = b.history ∨ b.OneStep b') := by
  obtain ⟨b', hb, htext, -, hrecords⟩ := make_eq hu hf
  refine ⟨b', hb, ?_⟩
  rcases hrecords with ⟨hh, ht⟩ | ⟨e, a, he, hh, ha, hp⟩
  · exact .inl ⟨ht, hh⟩
  · rw [History.record_of_none hg] at hh
    rw [Change.result, he] at htext
    exact .inr (oneStep_of_push hl hh ha hp (hf e he) htext)

end Buffer

/-! ## Keys -/

namespace Desk

variable {d : Desk}

theorem readThrough_stroke_ne_undo {k : KeyPress}
    (h : Command.ofKey d.vi.qStartsLine k ≠ .control .undo) : (d.readThrough k).stroke ≠ .undo := by
  intro hs
  have hsource := d.source_readThrough (k := k)
  rw [hs] at hsource
  cases hsource with
  | plain hp => cases hp
  | undo hk => exact h hk

/-- **One key, one undo step.** Outside of every group, and with a history of at least one step, a
key other than undo leaves text and history as they are or makes one step of the history, which undo
takes back and redo makes again. -/
theorem offer_one_step {k : KeyPress} (hg : d.buffer.history.group = none)
    (hl : 1 ≤ d.buffer.history.limit) (hk : Command.ofKey d.vi.qStartsLine k ≠ .control .undo) :
    ∃ d' taken, d.offer k = .ok (d', taken) ∧
      (d'.buffer.text = d.buffer.text ∧ d'.buffer.history = d.buffer.history ∨
        d.buffer.OneStep d'.buffer) := by
  have hu := change_ne_undo (readThrough_stroke_ne_undo hk)
  obtain ⟨b, hb, hstep⟩ := Buffer.make_one_step hu (d.change_fits k) hg hl
  exact ⟨_, d.takes k, offer_of_make hb, hstep⟩

/-- A selection deleted where one step is kept: the older step is forgotten, and so is what could be
redone. -/
theorem offer_one_step_of_full_history :
    let step : Action Splice := .batch [] [.edit [] 0 ⟨0, [], [97]⟩]
    let history : History Splice := { past := [step], future := [step], limit := 1 }
    let buffer : Buffer := { text := [97, 98, 99], savedText := [], cursor := ⟨1, 3⟩, history }
    let d : Desk := { vi := .new true true true false 20, register := [], buffer }
    let k : KeyPress := { key := [120] }
    (d.buffer.history.group = none ∧ 1 ≤ d.buffer.history.limit ∧
        Command.ofKey d.vi.qStartsLine k ≠ .control .undo) ∧
      ∃ d' taken, d.offer k = .ok (d', taken) ∧
        (d'.buffer.text = d.buffer.text ∧ d'.buffer.history = d.buffer.history ∨
          d.buffer.OneStep d'.buffer) := by
  intro step history buffer d k
  have hg : d.buffer.history.group = none := rfl
  have hl : 1 ≤ d.buffer.history.limit := by decide
  have hk : Command.ofKey d.vi.qStartsLine k ≠ .control .undo := by decide
  exact ⟨⟨hg, hl, hk⟩, offer_one_step hg hl hk⟩

end Desk

end ModalEditor
