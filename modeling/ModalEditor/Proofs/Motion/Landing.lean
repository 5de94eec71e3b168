import Mathlib.Logic.Function.Iterate
import ModalEditor.Proofs.Motion.Vertical
import ModalEditor.Proofs.Text.Walk
import ModalEditor.Proofs.Text.Words

/-!
# Where motions land

A motion starts from the offset of the text nearest to the given one and lands in the text
(`Motion.target_mem`), all but the vertical ones on a boundary (`Motion.boundary_target`). The motions
along a line stay on it (`Motion.target_along`); the others leave their offset behind, each in its
direction, until they are where they stay (`Motion.target_ahead`, `Motion.target_back`,
`Motion.target_down`, `Motion.target_up`).

So a motion that is repeated reaches the end, with at most as many steps as there are code units:
`Motion.lands`.
-/

namespace ModalEditor

/-! ## Steps that go on -/

section
variable {f : Int → Int} {n p : Int} {k : Nat}

/-- Steps that rise up to a bound, and stay there, reach it. -/
theorem iterate_eq_of_rises
    (hstep : ∀ q, 0 ≤ q → q ≤ n → q < f q ∧ f q ≤ n ∨ q = n ∧ f q = n)
    (hp : 0 ≤ p) (hp' : p ≤ n) (hk : n ≤ k) : f^[k] p = n := by
  have hreach : ∀ k : Nat, min (p + k) n ≤ f^[k] p ∧ f^[k] p ≤ n := by
    intro k
    induction k with
    | zero =>
      rw [Function.iterate_zero, id_eq]
      omega
    | succ k ih =>
      rw [Function.iterate_succ_apply']
      have := hstep (f^[k] p) (by omega) ih.2
      omega
  have := hreach k
  omega

theorem iterate_eq_zero_of_falls
    (hstep : ∀ q, 0 ≤ q → q ≤ n → 0 ≤ f q ∧ f q < q ∨ q = 0 ∧ f q = 0)
    (hp : 0 ≤ p) (hp' : p ≤ n) (hk : n ≤ k) : f^[k] p = 0 := by
  have hreach : ∀ k : Nat, 0 ≤ f^[k] p ∧ f^[k] p ≤ max (p - k) 0 := by
    intro k
    induction k with
    | zero =>
      rw [Function.iterate_zero, id_eq]
      omega
    | succ k ih =>
      rw [Function.iterate_succ_apply']
      have := hstep (f^[k] p) ih.1 (by omega)
      omega
  have := hreach k
  omega

end

namespace Motion

variable {m : Motion}

/-! ## Inside the text -/

/-- **Every motion but the vertical ones** lands between characters. -/
theorem boundary_target (h : m ≠ .down) (h' : m ≠ .up) (t : Text) (o : Int) :
    Text.Boundary t (m.target t o) := by
  have h0 := t.clamp_nonneg o
  have h1 := t.clamp_le o
  cases m with
  | left => exact Text.boundary_prev h0 h1
  | right => exact Text.boundary_next h0 h1
  | down => exact absurd rfl h
  | up => exact absurd rfl h'
  | lineStart => exact t.boundary_lineStart _
  | lineEnd => exact t.boundary_lineEnd _
  | firstNonBlank =>
    obtain ⟨rest, hrest⟩ := t.drop_lineStart (t.lineAt (t.clamp o))
    exact (t.boundary_lineStart _).past_indent hrest
  | wordRight => exact Text.boundary_nextWord h0 h1
  | wordLeft => exact Text.boundary_prevWord h0 h1
  | documentStart => exact t.boundary_zero
  | documentEnd => exact t.boundary_length

/-- A vertical motion lands on the nearest line one line further, or stays. -/
theorem target_motion_line (t : Text) (o : Int) (d : Direction) :
    (0 ≤ d.motion.target t o ∧ d.motion.target t o ≤ t.length) ∧
      t.lineAt (d.motion.target t o) = t.nearestLine (d.away (t.lineAt (t.clamp o)) 1) := by
  have hcolumn := Text.columnOf_nonneg (t.clamp_nonneg o) (t.clamp_le o)
  rw [target_motion]
  have hstands := Cursor.standsAt_atColumn t (d.away (t.lineAt (t.clamp o)) 1) hcolumn
  exact ⟨⟨hstands.nonneg, hstands.le⟩, Int.ofNat.inj hstands.line⟩

/-- **Every motion lands in the text.** -/
theorem target_mem (m : Motion) (t : Text) (o : Int) :
    0 ≤ m.target t o ∧ m.target t o ≤ t.length := by
  by_cases hdown : m = .down
  · subst hdown
    exact (target_motion_line t o .down).1
  · by_cases hup : m = .up
    · subst hup
      exact (target_motion_line t o .up).1
    · have hb := boundary_target hdown hup t o
      exact ⟨hb.nonneg, hb.le⟩

/-! ## Forward and backward -/

theorem target_ahead (h : m ∈ [right, wordRight, documentEnd]) (t : Text) (o : Int) :
    t.clamp o < m.target t o ∨ t.clamp o = t.length ∧ m.target t o = t.length := by
  have h0 := t.clamp_nonneg o
  simp only [List.mem_cons, List.not_mem_nil, or_false] at h
  rcases Int.lt_or_eq_of_le (t.clamp_le o) with hlt | hend
  · left
    rcases h with rfl | rfl | rfl
    · exact Text.lt_next h0 hlt
    · exact (Text.nextWord_spec h0 hlt).1
    · exact hlt
  · refine .inr ⟨hend, ?_⟩
    rcases h with rfl | rfl | rfl
    · show t.next (t.clamp o) = _
      rw [hend, t.next_length]
    · show t.nextWord (t.clamp o) = _
      rw [hend, t.nextWord_length]
    · rfl

theorem target_back (h : m ∈ [left, wordLeft, documentStart]) (t : Text) (o : Int) :
    m.target t o < t.clamp o ∨ t.clamp o = 0 ∧ m.target t o = 0 := by
  have hle := t.clamp_le o
  simp only [List.mem_cons, List.not_mem_nil, or_false] at h
  rcases Int.lt_or_eq_of_le (t.clamp_nonneg o) with hpos | hstart
  · left
    rcases h with rfl | rfl | rfl
    · exact Text.prev_lt hpos hle
    · exact (Text.prevWord_spec hpos hle).2.1
    · exact hpos
  · refine .inr ⟨hstart.symm, ?_⟩
    rcases h with rfl | rfl | rfl
    · show t.prev (t.clamp o) = _
      rw [← hstart, t.prev_zero]
    · show t.prevWord (t.clamp o) = _
      rw [← hstart, t.prevWord_zero]
    · rfl

/-! ## Up and down -/

theorem target_motion_of_stays {t : Text} {o : Int} {d : Direction}
    (h : t.nearestLine (d.away (t.lineAt (t.clamp o)) 1) = t.lineAt (t.clamp o)) :
    d.motion.target t o = t.clamp o := by
  rw [target_motion, ← Text.atColumn_nearestLine, h,
    Text.atColumn_columnOf (t.clamp_nonneg o) (t.clamp_le o)]

theorem target_down (t : Text) (o : Int) :
    t.lineAt (t.clamp o) < t.lineAt (down.target t o) ∧ t.clamp o < down.target t o ∨
      t.lineAt (t.clamp o) + 1 = t.lineCount ∧ down.target t o = t.clamp o := by
  have hlt := t.lineAt_lt (t.clamp o)
  have hnear := t.coe_nearestLine (Direction.down.away (t.lineAt (t.clamp o)) 1)
  have hline := (target_motion_line t o .down).2
  rw [Direction.away] at hnear
  rcases Nat.lt_or_eq_of_le (Nat.succ_le_of_lt hlt) with hnext | hlast
  · have hfurther : t.lineAt (t.clamp o) < t.lineAt (down.target t o) := by
      rw [Direction.motion] at hline
      rw [hline, Direction.away]
      omega
    exact .inl ⟨hfurther, Text.lt_of_lineAt_lt hfurther⟩
  · refine .inr ⟨hlast, target_motion_of_stays (d := .down) ?_⟩
    rw [Direction.away]
    omega

theorem target_up (t : Text) (o : Int) :
    t.lineAt (up.target t o) < t.lineAt (t.clamp o) ∧ up.target t o < t.clamp o ∨
      t.lineAt (t.clamp o) = 0 ∧ up.target t o = t.clamp o := by
  have hlt := t.lineAt_lt (t.clamp o)
  have hnear := t.coe_nearestLine (Direction.up.away (t.lineAt (t.clamp o)) 1)
  have hline := (target_motion_line t o .up).2
  rw [Direction.away] at hnear
  rcases Nat.eq_zero_or_pos (t.lineAt (t.clamp o)) with hfirst | hpos
  · refine .inr ⟨hfirst, target_motion_of_stays (d := .up) ?_⟩
    rw [Direction.away]
    omega
  · have hfurther : t.lineAt (up.target t o) < t.lineAt (t.clamp o) := by
      rw [Direction.motion] at hline
      rw [hline, Direction.away]
      omega
    exact .inl ⟨hfurther, Text.lt_of_lineAt_lt hfurther⟩

/-! ## Along the line -/

theorem target_along_mem (h : m ∈ [lineStart, lineEnd, firstNonBlank]) (t : Text) (o : Int) :
    t.lineStart (t.lineAt (t.clamp o)) ≤ m.target t o ∧
      m.target t o ≤ t.lineEnd (t.lineAt (t.clamp o)) := by
  have hle := t.lineStart_le_lineEnd (t.lineAt (t.clamp o))
  have hindent := (t.lineText (t.lineAt (t.clamp o))).indent_length_le
  simp only [List.mem_cons, List.not_mem_nil, or_false] at h
  rcases h with rfl | rfl | rfl
  · exact ⟨Int.le_refl _, hle⟩
  · exact ⟨hle, Int.le_refl _⟩
  · unfold Text.lineEnd
    simp only [target]
    omega

theorem target_along (h : m ∈ [lineStart, lineEnd, firstNonBlank]) (t : Text) (o : Int) :
    t.lineAt (m.target t o) = t.lineAt (t.clamp o) ∧
      m.target t (m.target t o) = m.target t o := by
  obtain ⟨hstart, hend⟩ := target_along_mem h t o
  obtain ⟨h0, hle⟩ := m.target_mem t o
  have hline : t.lineAt (m.target t o) = t.lineAt (t.clamp o) := by
    rw [Text.lineAt_eq_nearestLine hstart hend, t.nearestLine_lineAt]
  -- these motions ask for nothing but the line
  have hagain : ∀ o', t.lineAt (t.clamp o') = t.lineAt (t.clamp o) →
      m.target t o' = m.target t o := by
    intro o' ho'
    simp only [List.mem_cons, List.not_mem_nil, or_false] at h
    rcases h with rfl | rfl | rfl
    all_goals
      simp only [target]
      rw [ho']
  refine ⟨hline, hagain _ ?_⟩
  rw [Text.clamp_of_mem h0 hle, hline]

/-! ## Repeated motions -/

/-- **Motions land in the text and go on.** Whatever the offset is, with `p` the nearest one in the
text: every motion lands in the text; those forward land behind `p` unless it is the end, those
backward before it unless it is the beginning; down lands on a later line unless there is none, up on
an earlier one; and those along the line stay on it, each where it is the next time. So characters or
words forward reach the end, and backward the beginning, in as many steps as there are code units or
fewer, and stay. -/
theorem lands (t : Text) (o : Int) :
    let p := t.clamp o
    (∀ m : Motion, 0 ≤ m.target t o ∧ m.target t o ≤ t.length) ∧
    (∀ m ∈ [right, wordRight, documentEnd],
      p < m.target t o ∨ p = t.length ∧ m.target t o = t.length) ∧
    (∀ m ∈ [left, wordLeft, documentStart], m.target t o < p ∨ p = 0 ∧ m.target t o = 0) ∧
    (t.lineAt p < t.lineAt (down.target t o) ∧ p < down.target t o ∨
      t.lineAt p + 1 = t.lineCount ∧ down.target t o = p) ∧
    (t.lineAt (up.target t o) < t.lineAt p ∧ up.target t o < p ∨
      t.lineAt p = 0 ∧ up.target t o = p) ∧
    (∀ m ∈ [lineStart, lineEnd, firstNonBlank],
      t.lineAt (m.target t o) = t.lineAt p ∧ m.target t (m.target t o) = m.target t o) ∧
    (lineStart.target t o ≤ p ∧ p ≤ lineEnd.target t o) ∧
    (∀ m ∈ [right, wordRight], ∀ k : Nat, t.length ≤ k → (m.target t)^[k] p = t.length) ∧
    ∀ m ∈ [left, wordLeft], ∀ k : Nat, t.length ≤ k → (m.target t)^[k] p = 0 := by
  intro p
  have hp := t.clamp_nonneg o
  have hp' := t.clamp_le o
  refine ⟨fun m => m.target_mem t o, fun m hm => target_ahead hm t o, fun m hm => target_back hm t o,
    target_down t o, target_up t o, fun m hm => target_along hm t o, ?_, fun m hm k hk => ?_,
    fun m hm k hk => ?_⟩
  · have hmem := t.clamp_mem_line (t.clamp o)
    rwa [Text.clamp_of_mem hp hp'] at hmem
  · refine iterate_eq_of_rises (fun q h0 hle => ?_) hp hp' (Int.ofNat_le.2 hk)
    have hahead := target_ahead (List.mem_append_left [documentEnd] hm) t q
    rw [Text.clamp_of_mem h0 hle] at hahead
    exact hahead.imp_left fun hlt => ⟨hlt, (m.target_mem t q).2⟩
  · refine iterate_eq_zero_of_falls (fun q h0 hle => ?_) hp hp' (Int.ofNat_le.2 hk)
    have hback := target_back (List.mem_append_left [documentStart] hm) t q
    rw [Text.clamp_of_mem h0 hle] at hback
    exact hback.imp_left fun hlt => ⟨(m.target_mem t q).1, hlt⟩

/-- From inside the pair of "😀" before a line feed and an indented "b". -/
theorem lands_from_inside_pair :
    let t : Text := [0xD83D, 0xDE00, 10, 32, 98]
    1 < right.target t 1 ∧ left.target t 1 < 1 ∧ 1 < down.target t 1 ∧ up.target t 1 = 1 ∧
      firstNonBlank.target t (firstNonBlank.target t 1) = firstNonBlank.target t 1 ∧
      (wordRight.target t)^[5] 1 = 5 ∧ (left.target t)^[5] 1 = 0 := by
  intro t
  have hp : t.clamp 1 = 1 := by decide
  obtain ⟨-, hahead, hback, hdown, hup, halong, -, hright, hleft⟩ := lands t 1
  rw [hp] at hahead hback hdown hup hright hleft
  refine ⟨?_, ?_, ?_, ?_, (halong firstNonBlank (by simp)).2, hright wordRight (by simp) 5 (by decide),
    hleft left (by simp) 5 (by decide)⟩
  · exact (hahead right (by simp)).resolve_right fun hend => absurd hend.1 (by decide)
  · exact (hback left (by simp)).resolve_right fun hstart => absurd hstart.1 (by decide)
  · exact (hdown.resolve_right fun hlast => absurd hlast.1 (by decide +kernel)).2
  · exact (hup.resolve_left fun hup => absurd hup.1 (by decide +kernel)).2

end Motion

end ModalEditor
