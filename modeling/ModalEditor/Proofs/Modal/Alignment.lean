import ModalEditor.Proofs.Modal.Stroke
import ModalEditor.Proofs.Motion.Landing

/-!
# Edits between characters

A well-formed text with a cursor between characters is edited between characters
(`Stroke.change_aligned`): every stroke but a vertical motion, a page and undo begins and ends its
edit on a boundary and leaves the cursor on one. So the new text is well formed exactly if the
inserted one is (`Edit.wellFormed_result`).
-/

namespace ModalEditor

/-- Both ends of the cursor stand between characters. -/
structure Cursor.Aligned (c : Cursor) (t : Text) : Prop where
  position : Text.Boundary t c.position
  anchor : Text.Boundary t c.anchor

/-- The range of the edit begins and ends between characters. -/
structure Edit.Aligned (e : Edit) (t : Text) : Prop where
  start : Text.Boundary t e.start
  stop : Text.Boundary t e.stop

/-- On a text with the cursor `c`, the change makes its edit between characters, and leaves the cursor
between characters if the inserted text is well formed. -/
structure Change.Aligned (ch : Change) (t : Text) (c : Cursor) : Prop where
  edit : ∀ e, ch.edit? = some e → e.Aligned t
  cursor : (∀ e, ch.edit? = some e → e.inserted.wellFormed = true) →
    ((ch.cursor?.getD c).clampTo (ch.result t)).Aligned (ch.result t)

/-! ## Cursors -/

theorem Text.Boundary.clamp_eq {t : Text} {o : Int} (h : Boundary t o) : t.clamp o = o :=
  clamp_of_mem h.nonneg h.le

namespace Cursor

variable {c : Cursor} {t : Text}

theorem Aligned.clampTo_eq (h : c.Aligned t) : c.clampTo t = c :=
  clampTo_of_inside ⟨⟨h.position.nonneg, h.position.le⟩, h.anchor.nonneg, h.anchor.le⟩

theorem Aligned.clampTo (h : c.Aligned t) : (c.clampTo t).Aligned t := by
  rwa [h.clampTo_eq]

theorem aligned_collapsed {o : Int} (h : Text.Boundary t o) : (collapsed o).Aligned t := ⟨h, h⟩

theorem Aligned.first (h : c.Aligned t) : Text.Boundary t c.first := by
  unfold Cursor.first
  rcases Int.le_total c.position c.anchor with hle | hle
  · rw [Int.min_eq_left hle]
    exact h.position
  · rw [Int.min_eq_right hle]
    exact h.anchor

theorem Aligned.last (h : c.Aligned t) : Text.Boundary t c.last := by
  unfold Cursor.last
  rcases Int.le_total c.position c.anchor with hle | hle
  · rw [Int.max_eq_right hle]
    exact h.anchor
  · rw [Int.max_eq_left hle]
    exact h.position

end Cursor

/-! ## Edits -/

section
variable {t : Text} {e : Edit}

theorem Edit.wellFormed_result (ht : t.wellFormed = true) (hf : e.Fits t) (ha : e.Aligned t) :
    (e.result t).wellFormed = e.inserted.wellFormed := by
  rw [hf.result_eq, Text.wellFormed_append_of_right (ha.stop.wellFormed_parts ht).2,
    Text.wellFormed_append_of_left (ha.start.wellFormed_parts ht).1]

theorem Edit.boundary_result {k : Nat} (ht : t.wellFormed = true) (hf : e.Fits t)
    (ha : e.Aligned t) (hk : k ≤ e.inserted.length)
    (hw : Text.wellFormed (e.inserted.take k) = true) :
    Text.Boundary (e.result t) (e.start + k) := by
  have hstart : (t.take e.start.toNat).length = e.start.toNat := by
    have := hf.start_nonneg
    have := hf.start_le
    have := hf.stop_le
    rw [List.length_take]
    omega
  have hlength : (t.take e.start.toNat ++ e.inserted.take k).length = e.start.toNat + k := by
    rw [List.length_append, hstart, List.length_take, Nat.min_eq_left hk]
  have hposition : e.start + k = (t.take e.start.toNat ++ e.inserted.take k).length := by
    rw [hlength, Int.natCast_add, Int.toNat_of_nonneg hf.start_nonneg]
  have hparts : e.result t = (t.take e.start.toNat ++ e.inserted.take k) ++
      (e.inserted.drop k ++ t.drop e.stop.toNat) := by
    rw [hf.result_eq, List.append_assoc, List.append_assoc, ← List.append_assoc (e.inserted.take k),
      List.take_append_drop]
  rw [hposition, hparts]
  apply Text.boundary_of_wellFormed
  rw [Text.wellFormed_append_of_left (ha.start.wellFormed_parts ht).1]
  exact hw

end

/-! ## Changes -/

namespace Change

variable {t : Text} {c : Cursor} {ch : Change}

theorem aligned_of_cursor (he : ch.edit? = none) (h : (ch.cursor?.getD c).Aligned t) :
    ch.Aligned t c := by
  have hr : ch.result t = t := by
    unfold result
    rw [he]
    rfl
  refine ⟨fun e h => ?_, fun _ => ?_⟩
  · rw [he] at h
    cases h
  · rw [hr]
    exact h.clampTo

/-- A change that puts the cursor `k` code units behind the beginning of its edit. -/
theorem aligned_of_edit {e : Edit} (k : Nat) (ht : t.wellFormed = true) (he : ch.edit? = some e)
    (hf : e.Fits t) (ha : e.Aligned t) (hc : ch.cursor?.getD c = .collapsed (e.start + k))
    (hk : k ≤ e.inserted.length)
    (hw : e.inserted.wellFormed = true → Text.wellFormed (e.inserted.take k) = true) :
    ch.Aligned t c := by
  have hr : ch.result t = e.result t := by
    unfold result
    rw [he]
    rfl
  refine ⟨fun e' h => ?_, fun hi => ?_⟩
  · rw [he] at h
    cases h
    exact ha
  · rw [hc, hr]
    exact (Cursor.aligned_collapsed (Edit.boundary_result ht hf ha hk (hw (hi e he)))).clampTo

theorem aligned_of_start {e : Edit} (ht : t.wellFormed = true) (he : ch.edit? = some e)
    (hf : e.Fits t) (ha : e.Aligned t) (hc : ch.cursor?.getD c = .collapsed e.start) :
    ch.Aligned t c :=
  aligned_of_edit 0 ht he hf ha (by rw [hc, Int.natCast_zero, Int.add_zero]) (Nat.zero_le _)
    fun _ => rfl

end Change

/-! ## Plans -/

namespace Plan

variable {t : Text} {c : Cursor}

theorem none_aligned {c' : Cursor} (h : c'.Aligned t) :
    (Change.follow (Plan.none c')).Aligned t c :=
  Change.aligned_of_cursor rfl h

theorem wellFormed_indent (line : Text) : Text.wellFormed line.indent = true := by
  have h : ∀ s : Text, (∀ u ∈ s, CodeUnit.isHigh u = false ∧ CodeUnit.isLow u = false) →
      Text.wellFormed s = true := by
    intro s
    induction s with
    | nil => exact fun _ => rfl
    | cons u s ih =>
      intro hs
      obtain ⟨hh, hl⟩ := hs u List.mem_cons_self
      have hu : Text.wellFormed [u] = true := by simp [Text.wellFormed, hh, hl]
      rw [← List.singleton_append, Text.wellFormed_append_of_left hu]
      exact ih fun v hv => hs v (List.mem_cons_of_mem u hv)
  exact h _ fun u hu => Text.isHigh_indent hu

theorem cutLine_aligned : (Change.follow (cutLine t c)).Aligned t c := by
  have hfits := cutLine_fits t c
  unfold cutLine at hfits ⊢
  by_cases ht : t = []
  · rw [if_pos ht]
    exact none_aligned (Cursor.aligned_collapsed t.boundary_zero)
  rw [if_neg ht]
  refine ⟨fun e he => ?_, fun _ => ?_⟩
  · cases he
    have hline := t.nearestLine_lineAt c.position
    by_cases hend : decide (t.lastFullLine ≤ t.lineAt c.position ∧ 0 < t.lineAt c.position) = true
    · simp only [if_pos hend]
      exact ⟨Text.boundary_lineStart_pred (by rw [hline]; exact (of_decide_eq_true hend).2),
        t.boundary_lineEnd _⟩
    · simp only [if_neg hend]
      exact ⟨t.boundary_lineStart _, t.boundary_lineEnd_succ _⟩
  · exact (Cursor.aligned_collapsed (Text.boundary_lineStart _ _)).clampTo

theorem wellFormed_newline_append (s : Text) :
    Text.wellFormed (newline :: s) = Text.wellFormed s :=
  Text.wellFormed_append_of_left (a := [newline]) (by decide)

theorem wellFormed_append_newline (s : Text) :
    Text.wellFormed (s ++ [newline]) = Text.wellFormed s :=
  Text.wellFormed_append_of_right (by decide)

theorem pasteBelow_aligned (ht : t.wellFormed = true) (hc : c.Aligned t) (pasted : Text) :
    (Change.follow (pasteBelow t c pasted)).Aligned t c := by
  have hfits := pasteBelow_fits t c pasted
  unfold pasteBelow at hfits ⊢
  by_cases hp : pasted = []
  · rw [if_pos hp]
    exact none_aligned hc
  · rw [if_neg hp] at hfits ⊢
    exact Change.aligned_of_edit 1 ht rfl (hfits _ rfl)
      ⟨t.boundary_lineEnd _, t.boundary_lineEnd _⟩ rfl (by simp) fun _ => rfl

theorem length_break (indent : Text) : (newline :: indent).length = 1 + indent.length := by
  rw [List.length_cons, Nat.add_comm]

theorem openBelow_aligned (ht : t.wellFormed = true) :
    (Change.follow (openBelow t c)).Aligned t c := by
  have hfits := openBelow_fits t c
  unfold openBelow at hfits ⊢
  by_cases hn : t = []
  · rw [if_pos hn]
    exact none_aligned (Cursor.aligned_collapsed t.boundary_zero)
  · rw [if_neg hn] at hfits ⊢
    refine Change.aligned_of_edit (1 + (indentAt t c.position).length) ht rfl (hfits _ rfl)
      ⟨t.boundary_lineEnd _, t.boundary_lineEnd _⟩ ?_ (Nat.le_of_eq (length_break _).symm)
      fun hw => ?_
    · rw [Int.natCast_add, ← Int.add_assoc]
      rfl
    · rwa [List.take_of_length_le (Nat.le_of_eq (length_break _))]

theorem openAbove_aligned (ht : t.wellFormed = true) :
    (Change.follow (openAbove t c)).Aligned t c := by
  refine Change.aligned_of_edit (indentAt t c.position).length ht rfl (openAbove_fits t c _ rfl)
    ⟨t.boundary_lineStart _, t.boundary_lineStart _⟩ rfl (by simp) fun _ => ?_
  rw [List.take_left]
  exact wellFormed_indent _

theorem drop_slice {o : Int} (stop : Int) (h : 0 ≤ o) (h' : o ≤ t.length) :
    ∃ rest, t.drop o.toNat = t.slice o stop ++ rest := by
  refine ⟨(t.drop (t.bound stop)).drop (o.toNat - (t.take (t.bound stop)).length), ?_⟩
  unfold Text.slice
  rw [Text.bound_of_nonneg h, Nat.min_eq_left (by omega), ← List.drop_append, List.take_append_drop]

theorem breakLine_aligned (ht : t.wellFormed = true) (hc : c.Aligned t) :
    (Change.follow (breakLine t c)).Aligned t c := by
  have hfirst := hc.first
  have hlast : Text.Boundary t (t.clamp c.last) := by
    rw [hc.last.clamp_eq]
    exact hc.last
  obtain ⟨rest, hrest⟩ := drop_slice (t.lineEnd (t.lineAt (t.clamp c.last)))
    hlast.nonneg hlast.le
  refine Change.aligned_of_edit (1 + (indentAt t (t.clamp c.first)).length) ht rfl
    (breakLine_fits t c _ rfl) ⟨?_, hlast.past_indent hrest⟩ ?_ (Nat.le_of_eq (length_break _).symm) fun hw => ?_
  · rwa [hfirst.clamp_eq]
  · rw [Int.natCast_add, ← Int.add_assoc]
    rfl
  · rwa [List.take_of_length_le (Nat.le_of_eq (length_break _))]

theorem cutSelection_aligned (ht : t.wellFormed = true) (hc : c.Aligned t) :
    (Change.follow (cutSelection t c)).Aligned t c := by
  have hfits := cutSelection_fits t c
  unfold cutSelection at hfits ⊢
  by_cases hs : c.hasSelection = true
  · rw [if_pos hs] at hfits ⊢
    refine Change.aligned_of_start ht rfl (hfits _ rfl) ⟨?_, ?_⟩ rfl
    · rw [hc.first.clamp_eq]
      exact hc.first
    · rw [hc.last.clamp_eq]
      exact hc.last
  · rw [if_neg hs]
    exact none_aligned hc

theorem next_aligned (hc : c.Aligned t) {e : Edit} (h : e.start = t.clamp c.position)
    (h' : e.stop = t.next (t.clamp c.position)) : e.Aligned t := by
  constructor
  · rw [h, hc.position.clamp_eq]
    exact hc.position
  · rw [h']
    exact Text.boundary_next (t.clamp_nonneg _) (t.clamp_le _)

theorem here_aligned (hc : c.Aligned t) : (Cursor.collapsed (t.clamp c.position)).Aligned t := by
  rw [hc.position.clamp_eq]
  exact Cursor.aligned_collapsed hc.position

theorem cutCharacter_aligned (ht : t.wellFormed = true) (hc : c.Aligned t) :
    (Change.follow (cutCharacter t c)).Aligned t c := by
  have hfits := cutCharacter_fits t c
  unfold cutCharacter at hfits ⊢
  dsimp only at hfits ⊢
  split
  · exact none_aligned (here_aligned hc)
  · rename_i hlt
    rw [if_neg hlt] at hfits
    exact Change.aligned_of_start ht rfl (hfits _ rfl) (next_aligned hc rfl rfl) rfl

theorem overwrite_aligned (ht : t.wellFormed = true) (hc : c.Aligned t) (character : Text) :
    (Change.follow (overwrite t c character)).Aligned t c := by
  have hfits := overwrite_fits t c character
  unfold overwrite at hfits ⊢
  dsimp only at hfits ⊢
  split
  · exact none_aligned (here_aligned hc)
  · rename_i hat
    rw [if_neg hat] at hfits
    exact Change.aligned_of_start ht rfl (hfits _ rfl) (next_aligned hc rfl rfl) rfl

end Plan

theorem Repeatable.plan_aligned {t : Text} {c : Cursor} (ht : t.wellFormed = true)
    (hc : c.Aligned t) (register : Text) (e : Repeatable) :
    (Change.follow (e.plan t c register)).Aligned t c := by
  cases e with
  | deleteChar =>
    dsimp only [plan]
    split
    · exact Plan.cutSelection_aligned ht hc
    · exact Plan.cutCharacter_aligned ht hc
  | delete =>
    dsimp only [plan]
    split
    · exact Plan.cutSelection_aligned ht hc
    · exact Plan.cutLine_aligned
  | paste => exact Plan.pasteBelow_aligned ht hc register
  | overwrite character => exact Plan.overwrite_aligned ht hc character

/-! ## Strokes -/

namespace Stroke

variable {t : Text} {c : Cursor}

/-- Where a motion by lines takes the cursor. -/
def landing? (t : Text) (c : Cursor) : Stroke → Option Cursor
  | .move .down select => some (c.move t .down select)
  | .move .up select => some (c.move t .up select)
  | .page lines d => some (c.page t lines d)
  | _ => none

theorem move_aligned (hc : c.Aligned t) {m : Motion} (h : m ≠ .down) (h' : m ≠ .up)
    (select : Bool) : (c.move t m select).Aligned t := by
  have htarget := Motion.boundary_target h h' t c.position
  unfold Cursor.move
  split
  · unfold Cursor.extend
    dsimp only
    rw [if_neg fun hd => h hd.1, if_neg fun hu => h' hu.1, hc.anchor.clamp_eq]
    exact ⟨htarget, hc.anchor⟩
  · exact Cursor.aligned_collapsed htarget

theorem typing_aligned (ht : t.wellFormed = true) (hc : c.Aligned t) (typed : Text) :
    (typing t c typed).Aligned t c := by
  have hfirst : Text.Boundary t (t.clamp c.first) := by
    rw [hc.first.clamp_eq]
    exact hc.first
  have hlast : Text.Boundary t (t.clamp c.last) := by
    rw [hc.last.clamp_eq]
    exact hc.last
  refine Change.aligned_of_edit typed.length ht rfl (typing_fits t c typed _ rfl)
    ⟨hfirst, hlast⟩ rfl (Nat.le_refl _) fun hw => ?_
  rwa [List.take_length]

/-- **Every stroke but a motion by lines and undo** edits between characters. -/
theorem change_aligned (ht : t.wellFormed = true) (hc : c.Aligned t) (register : Text) {s : Stroke}
    (hl : s.landing? t c = none) (hu : s ≠ .undo) : (s.change t c register).Aligned t c := by
  have hfits := s.change_fits t c register
  have hhere : Text.Boundary t (t.clamp c.position) := (Plan.here_aligned hc).position
  cases s with
  | rest | yank => exact Change.aligned_of_cursor rfl hc
  | move m select =>
    refine Change.aligned_of_cursor rfl (move_aligned hc ?_ ?_ select)
    · rintro rfl
      cases hl
    · rintro rfl
      cases hl
  | page => cases hl
  | top => exact Change.aligned_of_cursor rfl (Cursor.aligned_collapsed t.boundary_zero)
  | edit e => exact e.plan_aligned ht hc register
  | insert place =>
    cases place with
    | before => exact Change.aligned_of_cursor rfl hc
    | after =>
      exact Change.aligned_of_cursor rfl
        (Cursor.aligned_collapsed (Text.boundary_next (t.clamp_nonneg _) (t.clamp_le _)))
    | lineBelow => exact Plan.openBelow_aligned ht
    | lineAbove => exact Plan.openAbove_aligned ht
  | breakLine => exact Plan.breakLine_aligned ht hc
  | undo => exact absurd rfl hu
  | type typed => exact typing_aligned ht hc typed
  | eraseBackward =>
    dsimp only [change] at hfits ⊢
    split
    · exact typing_aligned ht hc []
    rename_i hs
    rw [if_neg hs] at hfits
    split
    · exact Change.aligned_of_cursor rfl hc
    · rename_i h0
      rw [if_neg h0] at hfits
      exact Change.aligned_of_start ht rfl (hfits _ rfl)
        ⟨Text.boundary_prev (t.clamp_nonneg _) (t.clamp_le _), hhere⟩ rfl
  | eraseForward =>
    dsimp only [change] at hfits ⊢
    split
    · exact typing_aligned ht hc []
    rename_i hs
    rw [if_neg hs] at hfits
    split
    · exact Change.aligned_of_cursor rfl hc
    · rename_i hend
      rw [if_neg hend] at hfits
      have hcollapsed : c = .collapsed (t.clamp c.position) := by
        rw [hc.position.clamp_eq]
        exact Cursor.collapsed_of_not_hasSelection (Bool.eq_false_iff.2 hs)
      exact Change.aligned_of_start ht rfl (hfits _ rfl) (Plan.next_aligned hc rfl rfl) hcollapsed

end Stroke

end ModalEditor
