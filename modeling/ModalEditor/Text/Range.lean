/-!
# Sets of code units as ranges

A property of code units is kept as the ascending list of the ranges that have it.
-/

namespace ModalEditor

/-- Whether a number lies in one of the ascending, closed ranges. -/
def inRanges : List (Nat × Nat) → Nat → Bool
  | [], _ => false
  | (lo, hi) :: rest, n => if n < lo then false else if n ≤ hi then true else inRanges rest n

theorem exists_range_of_inRanges {rs : List (Nat × Nat)} {n : Nat} (h : inRanges rs n = true) :
    ∃ r ∈ rs, r.1 ≤ n ∧ n ≤ r.2 := by
  induction rs with
  | nil => cases h
  | cons r rest ih =>
    unfold inRanges at h
    split at h
    · cases h
    · split at h
      · exact ⟨r, by simp, by omega, by omega⟩
      · obtain ⟨q, hq, hn⟩ := ih h
        exact ⟨q, by simp [hq], hn⟩

end ModalEditor
