import ModalEditor.Proofs.Buffer.Change
import ModalEditor.Undo.Draft

/-!
# Batches within batches

However batches are nested, their replacements are performed from left to right and reverted from
right to left (`Action.perform_eq`, `Action.revert_eq`). Each replacement is made for the text that
those before it leave (`Replacement.FitAll`), and once they all were performed, the draft keeps for
each of them what it removed (`Replacement.Kept`).

Main statement: `Action.done_and_undone`. From then on, undoing gives back the text before, doing
again the text after, and so on by turns (`Action.turns`): nothing but the text changes any more
(`Replacement.performAll_of_kept`, `Replacement.revertAll_of_kept`).
-/

namespace ModalEditor

/-! ## The edits of a tree -/

namespace Action

variable {ε σ : Type}

mutual

/-- The edits of an action, from left to right. -/
def edits : Action ε → List ε
  | .edit _ _ e => [e]
  | .batch _ parts => editsAll parts

def editsAll : List (Action ε) → List ε
  | [] => []
  | a :: rest => a.edits ++ editsAll rest

end

mutual

theorem perform_eq (act : ε → σ → σ) :
    ∀ (a : Action ε) (s : σ), a.perform act s = a.edits.foldl (fun s e => act e s) s
  | .edit _ _ _, _ => by simp only [perform, edits, List.foldl_cons, List.foldl_nil]
  | .batch _ parts, s => by simp only [perform, edits]; exact performAll_eq act parts s

theorem performAll_eq (act : ε → σ → σ) :
    ∀ (as : List (Action ε)) (s : σ), performAll act as s =
      (editsAll as).foldl (fun s e => act e s) s
  | [], _ => rfl
  | a :: as, s => by
    simp only [performAll, editsAll, List.foldl_append]
    rw [performAll_eq act as, perform_eq act a]

end

mutual

theorem revert_eq (undo : ε → σ → σ) :
    ∀ (a : Action ε) (s : σ), a.revert undo s = a.edits.foldr undo s
  | .edit _ _ _, _ => by simp only [revert, edits, List.foldr_cons, List.foldr_nil]
  | .batch _ parts, s => by simp only [revert, edits]; exact revertAll_eq undo parts s

theorem revertAll_eq (undo : ε → σ → σ) :
    ∀ (as : List (Action ε)) (s : σ), revertAll undo as s = (editsAll as).foldr undo s
  | [], _ => rfl
  | a :: as, s => by
    simp only [revertAll, editsAll, List.foldr_append]
    rw [revertAll_eq undo as, revert_eq undo a]

end

end Action

/-! ## One replacement -/

namespace Replacement

/-- The range of the replacement lies in the text. -/
structure Fits (r : Replacement) (t : Text) : Prop where
  start_nonneg : 0 ≤ r.start
  start_le : r.start ≤ r.stop
  stop_le : r.stop ≤ t.length

variable {r : Replacement} {d : Draft} {t : Text}

/-- What was removed, put back in place of what was inserted. -/
theorem Fits.result_undone (h : r.Fits t) :
    (r.result t).before r.start ++ t.slice r.start r.stop ++
      (r.result t).following (r.start + r.inserted.length) = t := by
  obtain ⟨h1, h2, h3⟩ := h
  let e : Edit := ⟨[], r.start, r.stop, r.inserted⟩
  have he : e.Fits t := ⟨h1, h2, h3⟩
  have hstart : r.start = (r.start.toNat : Int) := (Int.toNat_of_nonneg h1).symm
  have hundo := Splice.undo_apply he.splice_fits
  rw [he.splice_apply] at hundo
  rw [Text.slice_of_mem h1 (by omega) (by omega) h3, hstart, Text.before_natCast,
    ← Int.natCast_add, Text.following_natCast]
  exact hundo

theorem text_perform (r : Replacement) (d : Draft) : (r.perform d).text = r.result d.text := by
  unfold perform Draft.keep
  split <;> rfl

theorem removed_perform_self (r : Replacement) (d : Draft) :
    (r.perform d).removed r.slot = some ((d.removed r.slot).getD (d.text.slice r.start r.stop)) := by
  unfold perform Draft.keep
  cases h : d.removed r.slot <;> simp [h]

theorem removed_perform_of_ne {s : Nat} (h : s ≠ r.slot) (d : Draft) :
    (r.perform d).removed s = d.removed s := by
  unfold perform Draft.keep
  split <;> simp [h]

theorem removed_perform_of_some {s : Nat} (h : d.removed s = some t) (r : Replacement) :
    (r.perform d).removed s = some t := by
  by_cases hs : s = r.slot
  · subst hs
    rw [removed_perform_self, h, Option.getD_some]
  · rw [removed_perform_of_ne hs, h]

theorem perform_of_some (h : d.removed r.slot = some t) :
    r.perform d = { d with text := r.result d.text } := by
  simp [perform, h]

theorem revert_of_fits (h : r.Fits t) (hkept : d.removed r.slot = some (t.slice r.start r.stop))
    (htext : d.text = r.result t) : r.revert d = { d with text := t } := by
  unfold revert
  rw [hkept]
  dsimp only
  rw [htext, h.result_undone]

/-! ## One replacement after the other -/

/-- The text after the replacements, first to last. -/
def results (rs : List Replacement) (t : Text) : Text := rs.foldl (fun t r => r.result t) t

/-- Each replacement has its range in the text that those before it leave. -/
def FitAll : List Replacement → Text → Prop
  | [], _ => True
  | r :: rs, t => r.Fits t ∧ FitAll rs (r.result t)

/-- For each of the replacements there is kept what it removes from the text that those before it
leave. -/
def Kept (removed : Nat → Option Text) : List Replacement → Text → Prop
  | [], _ => True
  | r :: rs, t => removed r.slot = some (t.slice r.start r.stop) ∧ Kept removed rs (r.result t)

variable {rs : List Replacement}

theorem text_performAll (rs : List Replacement) (d : Draft) :
    (rs.foldl (fun d r => r.perform d) d).text = results rs d.text := by
  induction rs generalizing d with
  | nil => rfl
  | cons r rs ih =>
    rw [List.foldl_cons, ih, text_perform]
    rfl

theorem removed_performAll_of_some {s : Nat} (h : d.removed s = some t) (rs : List Replacement) :
    (rs.foldl (fun d r => r.perform d) d).removed s = some t := by
  induction rs generalizing d with
  | nil => exact h
  | cons r rs ih => exact ih (removed_perform_of_some h r)

/-- **Performed for the first time**, different replacements are kept what they remove. -/
theorem kept_performAll (hslots : (rs.map slot).Nodup) (hnew : ∀ r ∈ rs, d.removed r.slot = none) :
    Kept (rs.foldl (fun d r => r.perform d) d).removed rs d.text := by
  induction rs generalizing d with
  | nil => trivial
  | cons r rs ih =>
    rw [List.map_cons, List.nodup_cons] at hslots
    obtain ⟨hr, hrs⟩ := List.forall_mem_cons.1 hnew
    have hself : (r.perform d).removed r.slot = some (d.text.slice r.start r.stop) := by
      rw [removed_perform_self, hr, Option.getD_none]
    have hrest : ∀ r' ∈ rs, (r.perform d).removed r'.slot = none := by
      intro r' hr'
      have hne : r'.slot ≠ r.slot := fun h => hslots.1 (h ▸ List.mem_map_of_mem hr')
      rw [removed_perform_of_ne hne]
      exact hrs r' hr'
    have hkept := ih hslots.2 hrest
    rw [text_perform] at hkept
    exact ⟨removed_performAll_of_some hself rs, hkept⟩

/-- **Performed again**, they change nothing but the text. -/
theorem performAll_of_kept (h : Kept d.removed rs d.text) :
    rs.foldl (fun d r => r.perform d) d = { d with text := results rs d.text } := by
  induction rs generalizing d with
  | nil => rfl
  | cons r rs ih =>
    rw [List.foldl_cons, perform_of_some h.1, ih h.2]
    rfl

/-- **Reverted**, they give back the text they were made for, and change nothing else. -/
theorem revertAll_of_kept (hfit : FitAll rs t) (h : Kept d.removed rs t)
    (htext : d.text = results rs t) : rs.foldr revert d = { d with text := t } := by
  induction rs generalizing t with
  | nil =>
    obtain rfl : d.text = t := htext
    rfl
  | cons r rs ih =>
    rw [List.foldr_cons, ih hfit.2 h.2 htext]
    exact revert_of_fits hfit.1 h.1 rfl

end Replacement

/-! ## Done and undone by turns -/

namespace Action

/-- The draft after `n` turns: an action is done at the first, undone at the second, done again at the
third, and so on. -/
def turns (a : Action Replacement) (d : Draft) : Nat → Draft
  | 0 => d
  | n + 1 =>
    if n % 2 = 0 then a.perform Replacement.perform (a.turns d n)
    else a.revert Replacement.revert (a.turns d n)

variable {a : Action Replacement} {d : Draft}

/-- From the first turn on, the text is the only thing that changes. -/
theorem turns_succ (hslots : (a.edits.map Replacement.slot).Nodup)
    (hnew : ∀ r ∈ a.edits, d.removed r.slot = none) (hfit : Replacement.FitAll a.edits d.text)
    (n : Nat) : a.turns d (n + 1) = { a.perform Replacement.perform d with
      text := if n % 2 = 0 then Replacement.results a.edits d.text else d.text } := by
  have hkept := Replacement.kept_performAll hslots hnew
  have htext := Replacement.text_performAll a.edits d
  rw [← perform_eq Replacement.perform a] at hkept htext
  induction n with
  | zero =>
    rw [if_pos rfl, ← htext]
    rfl
  | succ n ih =>
    rw [turns, ih]
    by_cases hn : n % 2 = 0
    · have hodd : ¬ (n + 1) % 2 = 0 := by omega
      rw [if_pos hn, if_neg hodd, if_neg hodd, revert_eq]
      exact Replacement.revertAll_of_kept hfit hkept rfl
    · have heven : (n + 1) % 2 = 0 := by omega
      rw [if_neg hn, if_pos heven, if_pos heven, perform_eq]
      exact Replacement.performAll_of_kept hkept

/-- **A batch is undone exactly.** A tree of batches, in which no replacement stands twice and none
was performed before, each of them with its range in the text that it finds when it is performed: done,
it makes its replacements one after the other; undone, it gives back the text exactly; done again, it
gives the same text as at first; and so it goes on, turn by turn, for ever. -/
theorem done_and_undone (hslots : (a.edits.map Replacement.slot).Nodup)
    (hnew : ∀ r ∈ a.edits, d.removed r.slot = none) (hfit : Replacement.FitAll a.edits d.text) :
    let done := a.perform Replacement.perform d
    let undone := a.revert Replacement.revert done
    done.text = Replacement.results a.edits d.text ∧ undone.text = d.text ∧
      (a.perform Replacement.perform undone).text = done.text ∧
      ∀ n, (a.turns d n).text = if n % 2 = 0 then d.text else done.text := by
  intro done undone
  have hturns := turns_succ hslots hnew hfit
  have hdone : done.text = Replacement.results a.edits d.text := by
    rw [show done = a.turns d 1 from rfl, hturns]
    rfl
  have hundone : undone.text = d.text := by
    rw [show undone = a.turns d 2 from rfl, hturns]
    rfl
  have hagain : (a.perform Replacement.perform undone).text =
      Replacement.results a.edits d.text := by
    rw [show a.perform Replacement.perform undone = a.turns d 3 from rfl, hturns]
    rfl
  refine ⟨hdone, hundone, by rw [hagain, hdone], fun n => ?_⟩
  cases n with
  | zero => rfl
  | succ n =>
    rw [hturns, hdone]
    by_cases hn : n % 2 = 0
    · rw [if_pos hn, if_neg (by omega)]
    · rw [if_neg hn, if_pos (by omega)]

/-- Three levels: the second replacement takes out part of what the first one inserted and what
follows it, and the third one inserts at the place where it was. -/
theorem done_and_undone_of_nested :
    let a : Action Replacement := .batch [] [.edit [] 1 ⟨0, 1, 2, [120, 121, 122]⟩,
      .batch [] [.batch [] [.edit [] 2 ⟨1, 2, 5, []⟩], .batch [] []], .edit [] 2 ⟨2, 2, 2, [119]⟩]
    let d : Draft := { text := [97, 98, 99, 100] }
    (a.edits.map Replacement.slot).Nodup ∧ (∀ r ∈ a.edits, d.removed r.slot = none) ∧
      Replacement.FitAll a.edits d.text ∧
      let done := a.perform Replacement.perform d
      let undone := a.revert Replacement.revert done
      done.text = Replacement.results a.edits d.text ∧ undone.text = d.text ∧
        (a.perform Replacement.perform undone).text = done.text ∧
        ∀ n, (a.turns d n).text = if n % 2 = 0 then d.text else done.text := by
  intro a d
  have hslots : (a.edits.map Replacement.slot).Nodup := by decide
  have hnew : ∀ r ∈ a.edits, d.removed r.slot = none := fun _ _ => rfl
  have hfit : Replacement.FitAll a.edits d.text :=
    ⟨⟨by decide, by decide, by decide⟩, ⟨by decide, by decide, by decide⟩,
      ⟨by decide, by decide, by decide⟩, trivial⟩
  exact ⟨hslots, hnew, hfit, done_and_undone hslots hnew hfit⟩

end Action

end ModalEditor
