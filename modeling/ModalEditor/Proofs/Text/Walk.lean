import Mathlib.Data.List.Chain
import Mathlib.Data.List.Iterate
import ModalEditor.Proofs.Text.Character

/-!
# A walk over the characters

`Text.stops` lists the boundaries of a text from its beginning to its end. A step by a character goes
to the boundary next to an offset: none lies between them (`Text.Boundary.next_gap`,
`Text.Boundary.prev_gap`). So from a stop the step forward leads to the next one in the list and the
step backward to the one before (`Text.isChain_stops`), and a walk through the whole text passes the
list, either way: `Text.characters_walked`. The text may hold lone halves of surrogate pairs.
-/

namespace ModalEditor

namespace Text

/-- The boundaries of a text, in ascending order. -/
def stops (t : Text) : List Int :=
  ((List.range (t.length + 1)).map Int.ofNat).filter fun o => !t.insidePair o

section
variable {t : Text} {o q : Int}

/-! ## One step -/

theorem lt_next (h : 0 ≤ o) (h' : o < t.length) : o < t.next o := by
  rw [next_eq h h']
  split <;> omega

theorem prev_lt (h : 0 < o) (h' : o ≤ t.length) : t.prev o < o := by
  rw [prev_eq h h']
  split <;> omega

theorem next_length (t : Text) : t.next t.length = t.length := by
  unfold next
  rw [if_pos (Int.le_refl _)]

theorem prev_zero (t : Text) : t.prev 0 = 0 := rfl

theorem Boundary.next_gap (hq : Boundary t q) (h : 0 ≤ o) (h' : o < t.length) :
    q ≤ o ∨ t.next o ≤ q := by
  rw [next_eq h h']
  split
  · rename_i hinside
    have hne : q ≠ o + 1 := by
      rintro rfl
      rw [hq.outside] at hinside
      cases hinside
    omega
  · omega

theorem Boundary.prev_gap (hq : Boundary t q) (h : 0 < o) (h' : o ≤ t.length) :
    q ≤ t.prev o ∨ o ≤ q := by
  rw [prev_eq h h']
  split
  · rename_i hinside
    have hne : q ≠ o - 1 := by
      rintro rfl
      rw [hq.outside] at hinside
      cases hinside
    omega
  · omega

/-- Between two boundaries without another one between them goes a step, either way. -/
theorem Boundary.steps_of_gap (h : Boundary t o) (hq : Boundary t q) (hlt : o < q)
    (hgap : ∀ b, Boundary t b → b ≤ o ∨ q ≤ b) : t.next o = q ∧ t.prev q = o := by
  have hend : o < t.length := Int.lt_of_lt_of_le hlt hq.le
  have hpos : 0 < q := Int.lt_of_le_of_lt h.nonneg hlt
  have hforth := lt_next h.nonneg hend
  have hback := prev_lt hpos hq.le
  constructor
  · rcases hgap _ (boundary_next h.nonneg h.le) with hle | hle
    · omega
    · have := hq.next_gap h.nonneg hend
      omega
  · rcases hgap _ (boundary_prev hq.nonneg hq.le) with hle | hle
    · have := h.prev_gap hpos hq.le
      omega
    · omega

theorem Boundary.prev_next (h : Boundary t o) (hlt : o < t.length) : t.prev (t.next o) = o :=
  (h.steps_of_gap (boundary_next h.nonneg h.le) (lt_next h.nonneg hlt)
    fun _ hb => hb.next_gap h.nonneg hlt).2

theorem Boundary.next_prev (h : Boundary t o) (hpos : 0 < o) : t.next (t.prev o) = o :=
  ((boundary_prev h.nonneg h.le).steps_of_gap h (prev_lt hpos h.le)
    fun _ hb => hb.prev_gap hpos h.le).1

/-! ## The stops -/

theorem mem_stops : o ∈ t.stops ↔ Boundary t o := by
  unfold stops
  simp only [List.mem_filter, List.mem_map, List.mem_range, Bool.not_eq_true']
  constructor
  · rintro ⟨⟨n, hn, rfl⟩, houtside⟩
    exact ⟨Int.natCast_nonneg n, Int.ofNat_le.2 (by omega), houtside⟩
  · rintro ⟨h0, hle, houtside⟩
    exact ⟨⟨o.toNat, by omega, Int.toNat_of_nonneg h0⟩, houtside⟩

theorem pairwise_stops (t : Text) : t.stops.Pairwise (· < ·) := by
  apply List.Pairwise.filter
  rw [List.pairwise_map]
  exact List.pairwise_lt_range.imp Int.ofNat_lt.2

theorem exists_stops_eq_cons (t : Text) : ∃ rest, t.stops = 0 :: rest := by
  unfold stops
  rw [List.range_succ_eq_map, List.map_cons]
  exact ⟨_, List.filter_cons_of_pos (by simpa using t.boundary_zero.outside)⟩

theorem exists_stops_eq_concat (t : Text) : ∃ front, t.stops = front ++ [(t.length : Int)] := by
  unfold stops
  rw [List.range_succ, List.map_append, List.filter_append]
  refine ⟨_, congrArg _ ?_⟩
  exact List.filter_cons_of_pos (by simpa using t.boundary_length.outside)

end

/-! ## The walk -/

theorem isChain_of_ascending {l : List Int} (h : l.Pairwise (· < ·)) :
    l.IsChain fun a b => a ∈ l ∧ b ∈ l ∧ a < b ∧ ∀ c ∈ l, c ≤ a ∨ b ≤ c := by
  have hlt := List.pairwise_iff_getElem.1 h
  rw [List.isChain_iff_getElem]
  intro i hi
  refine ⟨List.getElem_mem _, List.getElem_mem hi, hlt i (i + 1) _ hi (Nat.lt_succ_self i), ?_⟩
  intro c hc
  obtain ⟨k, hk, rfl⟩ := List.getElem_of_mem hc
  rcases Nat.lt_trichotomy k i with hki | rfl | hki
  · exact .inl (Int.le_of_lt (hlt k i hk _ hki))
  · exact .inl (Int.le_refl _)
  · rcases Nat.eq_or_lt_of_le hki with rfl | hki
    · exact .inr (Int.le_refl _)
    · exact .inr (Int.le_of_lt (hlt (i + 1) k hi hk hki))

theorem isChain_stops (t : Text) : t.stops.IsChain fun a b => t.next a = b ∧ t.prev b = a := by
  refine (isChain_of_ascending t.pairwise_stops).imp ?_
  rintro a b ⟨ha, hb, hlt, hgap⟩
  exact (mem_stops.1 ha).steps_of_gap (mem_stops.1 hb) hlt fun c hc => hgap c (mem_stops.2 hc)

/-- A list in which every member leads to the next one is what the steps from its first member
pass. -/
theorem iterate_of_isChain {f : Int → Int} {a : Int} {l : List Int}
    (h : (a :: l).IsChain (f · = ·)) : List.iterate f a (a :: l).length = a :: l := by
  induction l generalizing a with
  | nil => rfl
  | cons b l ih =>
    obtain ⟨hstep, hrest⟩ := List.isChain_cons_cons.1 h
    rw [List.length_cons, List.iterate, hstep, ih hrest]

theorem iterate_next (t : Text) : List.iterate t.next 0 t.stops.length = t.stops := by
  obtain ⟨rest, hstops⟩ := t.exists_stops_eq_cons
  have hchain := t.isChain_stops.imp fun _ _ h => h.1
  rw [hstops] at hchain ⊢
  exact iterate_of_isChain hchain

theorem iterate_prev (t : Text) :
    List.iterate t.prev t.length t.stops.length = t.stops.reverse := by
  obtain ⟨front, hstops⟩ := t.exists_stops_eq_concat
  have hchain : t.stops.reverse.IsChain (t.prev · = ·) :=
    List.isChain_reverse.2 (t.isChain_stops.imp fun _ _ h => h.2)
  have hlength := t.stops.length_reverse
  rw [hstops, List.reverse_concat] at hchain hlength ⊢
  rw [← hlength]
  exact iterate_of_isChain hchain

/-- **Left and right walk exactly the characters.** A step from a boundary ends on a boundary, passes
none, and is taken back by the step the other way. From the beginning of the text the steps forward
pass every boundary once, in ascending order, and stay at the end; from the end the steps backward
pass them in the reverse order, and stay at the beginning. -/
theorem characters_walked (t : Text) :
    (∀ p, Boundary t p →
      Boundary t (t.next p) ∧ Boundary t (t.prev p) ∧
      (p < t.length → t.prev (t.next p) = p) ∧ (0 < p → t.next (t.prev p) = p) ∧
      ∀ q, Boundary t q → ¬ (p < q ∧ q < t.next p)) ∧
    (t.stops.Pairwise (· < ·) ∧ ∀ o, o ∈ t.stops ↔ Boundary t o) ∧
    (List.iterate t.next 0 t.stops.length = t.stops ∧
      t.stops.getLast? = some (t.length : Int) ∧ t.next t.length = t.length) ∧
    List.iterate t.prev t.length t.stops.length = t.stops.reverse ∧
      t.stops.reverse.getLast? = some 0 ∧ t.prev 0 = 0 := by
  obtain ⟨rest, hfirst⟩ := t.exists_stops_eq_cons
  obtain ⟨front, hlast⟩ := t.exists_stops_eq_concat
  refine ⟨fun p hp => ?_, ⟨t.pairwise_stops, fun _ => mem_stops⟩,
    ⟨t.iterate_next, by simp [hlast], t.next_length⟩, t.iterate_prev, by simp [hfirst], t.prev_zero⟩
  refine ⟨boundary_next hp.nonneg hp.le, boundary_prev hp.nonneg hp.le, hp.prev_next, hp.next_prev,
    ?_⟩
  rintro q hq ⟨hpq, hqn⟩
  have hlt : p < t.length := Int.lt_of_lt_of_le hpq hq.le
  rcases hq.next_gap hp.nonneg hlt with hle | hle
  · omega
  · omega

/-- A pair between two lone halves: the high one before it and the low one behind it stand for
themselves. -/
theorem characters_walked_around_pair :
    let t : Text := [0xD83D, 0xD83D, 0xDE00, 0xDE00]
    Boundary t 1 ∧ t.next 1 = 3 ∧ t.prev (t.next 1) = 1 ∧ t.next (t.prev 1) = 1 ∧
      List.iterate t.next 0 4 = [0, 1, 3, 4] ∧ List.iterate t.prev 4 4 = [4, 3, 1, 0] := by
  intro t
  have hp : Boundary t 1 := ⟨by decide, by decide, by decide⟩
  have hstops : t.stops = [0, 1, 3, 4] := by decide
  obtain ⟨hsteps, -, ⟨hforth, -, -⟩, hback, -, -⟩ := t.characters_walked
  obtain ⟨-, -, hprev, hnext, -⟩ := hsteps 1 hp
  rw [hstops] at hforth hback
  exact ⟨hp, by decide, hprev (by decide), hnext (by decide), hforth, hback⟩

end Text

end ModalEditor
