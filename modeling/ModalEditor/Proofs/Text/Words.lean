import Mathlib.Order.Bounds.Defs
import ModalEditor.Proofs.Text.Character

/-!
# Where words begin

A word begins where something that is not blank stands behind something of another class, or at the
beginning of the text (`Text.WordStart`). Between two word starts there is one run of a class and the
blanks behind it; inside a run no word begins (`Text.Run.not_wordStart`).

A word motion scans two runs. Forward these are what is left of the run at the offset and the blanks
behind it (`Text.nextWord_runs`), backward the blanks before the offset and the run that ends there
(`Text.prevWord_runs`). So they find the nearest word start on either side, and each takes the other
back: `Text.nearest_words`. No word begins inside a surrogate pair, because both halves are
punctuation (`Text.WordStart.boundary`).
-/

namespace ModalEditor

namespace CodeUnit

/-! ## The class of a surrogate -/

theorem surrogate_toNat {u : CodeUnit} (h : isHigh u = true ∨ isLow u = true) :
    0xD800 ≤ u.toNat ∧ u.toNat ≤ 0xDFFF := by
  simp only [isHigh, isLow, Bool.and_eq_true, decide_eq_true_eq, UInt16.le_iff_toNat_le] at h
  have h1 : (0xD800 : UInt16).toNat = 55296 := rfl
  have h2 : (0xDBFF : UInt16).toNat = 56319 := rfl
  have h3 : (0xDC00 : UInt16).toNat = 56320 := rfl
  have h4 : (0xDFFF : UInt16).toNat = 57343 := rfl
  omega

theorem inRanges_surrogate {rs : List (Nat × Nat)} {u : CodeUnit}
    (hrs : (rs.all fun r => r.2 < 0xD800 || 0xDFFF < r.1) = true)
    (h : isHigh u = true ∨ isLow u = true) : inRanges rs u.toNat = false := by
  cases hin : inRanges rs u.toNat with
  | false => rfl
  | true =>
    obtain ⟨r, hr, hlo, hhi⟩ := exists_range_of_inRanges hin
    have hu := surrogate_toNat h
    have := List.all_eq_true.1 hrs r hr
    simp only [Bool.or_eq_true, decide_eq_true_eq] at this
    omega

theorem charClass_surrogate {u : CodeUnit} (h : isHigh u = true ∨ isLow u = true) :
    charClass u = .punctuation := by
  have hblank : isBlank u = false := inRanges_surrogate (by decide) h
  have hletter : inRanges letterRanges u.toNat = false := inRanges_surrogate (by decide +kernel) h
  have hunderscore : u ≠ 0x5F := by
    rintro rfl
    have := surrogate_toNat h
    have : (0x5F : UInt16).toNat = 95 := rfl
    omega
  unfold charClass isWord
  simp [hblank, hletter, hunderscore]

end CodeUnit

namespace Text

/-- A word begins at an offset: what stands there is not blank, and before it nothing stands, or
something of another class. -/
structure WordStart (t : Text) (j : Int) : Prop where
  nonneg : 0 ≤ j
  lt : j < t.length
  notBlank : t.classAt j ≠ .blank
  turn : j = 0 ∨ t.classAt (j - 1) ≠ t.classAt j

/-- From one offset up to another everything has one class. -/
def Run (t : Text) (c : CharClass) (low high : Int) : Prop :=
  ∀ j, low ≤ j → j < high → t.classAt j = c

/-! ## Runs -/

section
variable {t : Text} {c : CharClass} {low high j : Int}

theorem Run.not_wordStart (h : t.Run c low high) (h0 : 0 ≤ low) (hlow : low < j)
    (hhigh : j < high) : ¬ t.WordStart j := by
  intro hstart
  have hhere := h j (by omega) hhigh
  have hbefore := h (j - 1) (by omega) (by omega)
  rcases hstart.turn with rfl | hturn
  · omega
  · exact hturn (hbefore.trans hhere.symm)

theorem Run.not_wordStart_blank (h : t.Run .blank low high) (hlow : low ≤ j) (hhigh : j < high) :
    ¬ t.WordStart j :=
  fun hstart => hstart.notBlank (h j hlow hhigh)

end

theorem classAt_append (a b : Text) (u : CodeUnit) :
    (a ++ u :: b).classAt a.length = CodeUnit.charClass u := by
  simp [classAt, unitAt?_natCast]

theorem run_append (a : Text) {run : Text} {c : CharClass} (h : ∀ u ∈ run, CodeUnit.charClass u = c)
    (b : Text) :
    Run (a ++ (run ++ b)) c a.length (a.length + run.length : Nat) := by
  intro j hlow hhigh
  obtain ⟨n, rfl⟩ : ∃ n : Nat, j = (a.length + n : Nat) := ⟨(j - a.length).toNat, by omega⟩
  have hn : n < run.length := by omega
  have hunit : (a ++ (run ++ b))[a.length + n]? = some run[n] := by
    rw [List.getElem?_append_right (by omega), Nat.add_sub_cancel_left,
      List.getElem?_append_left hn, List.getElem?_eq_getElem hn]
  rw [classAt, unitAt?_natCast, hunit]
  exact h _ (List.getElem_mem hn)

/-- A text begins with a run of one class, and goes on with another class or not at all. -/
theorem exists_run (c : CharClass) (t : Text) : ∃ run rest, t = run ++ rest ∧
    run.length = runLength c t ∧ (∀ u ∈ run, CodeUnit.charClass u = c) ∧
    ∀ u ∈ rest.head?, CodeUnit.charClass u ≠ c := by
  refine ⟨_, _, List.takeWhile_append_dropWhile.symm, rfl, fun u hu => ?_, fun u hu => ?_⟩
  · simpa using List.all_eq_true.1 List.all_takeWhile u hu
  · have := List.head?_dropWhile_not (CodeUnit.charClass · = c) t
    rw [hu] at this
    simpa using this

theorem run_ahead (t : Text) (c : CharClass) {n : Nat} (h : n ≤ t.length) :
    n + runLength c (t.drop n) ≤ t.length ∧ t.Run c n (n + runLength c (t.drop n) : Nat) ∧
      (n + runLength c (t.drop n) < t.length → t.classAt (n + runLength c (t.drop n) : Nat) ≠ c) := by
  obtain ⟨a, ahead, rfl, rfl⟩ : ∃ a ahead, t = a ++ ahead ∧ n = a.length :=
    ⟨_, _, (List.take_append_drop n t).symm, (List.length_take_of_le h).symm⟩
  obtain ⟨run, rest, rfl, hlength, hrun, hrest⟩ := exists_run c ahead
  rw [List.drop_left, ← hlength]
  refine ⟨by simp, run_append _ hrun _, fun hlt => ?_⟩
  cases rest with
  | nil => simp at hlt
  | cons v rest =>
    rw [← List.append_assoc, ← List.length_append, classAt_append]
    exact hrest v rfl

theorem run_behind (t : Text) (c : CharClass) {n : Nat} (h : n ≤ t.length) :
    t.Run c (n - runLength c (t.take n).reverse : Nat) n ∧
      (0 < n - runLength c (t.take n).reverse →
        t.classAt ((n - runLength c (t.take n).reverse : Nat) - 1) ≠ c) := by
  obtain ⟨a, b, rfl, rfl⟩ : ∃ a ahead, t = a ++ ahead ∧ n = a.length :=
    ⟨_, _, (List.take_append_drop n t).symm, (List.length_take_of_le h).symm⟩
  obtain ⟨run, rest, hbehind, hlength, hrun, hrest⟩ := exists_run c a.reverse
  obtain rfl : a = rest.reverse ++ run.reverse := by
    rw [← List.reverse_append, ← hbehind, List.reverse_reverse]
  rw [List.take_left, ← hlength, List.length_append, List.length_reverse, List.length_reverse,
    Nat.add_sub_cancel, List.append_assoc]
  constructor
  · have hrun' := run_append rest.reverse (fun u hu => hrun u (List.mem_reverse.1 hu)) b
    rwa [List.length_reverse, List.length_reverse] at hrun'
  · intro hpos
    cases rest with
    | nil => simp at hpos
    | cons v rest =>
      have hv := classAt_append rest.reverse (run.reverse ++ b) v
      rw [List.reverse_cons, List.append_assoc, List.length_cons, Int.natCast_add,
        Int.natCast_one, Int.add_sub_cancel, ← List.length_reverse]
      exact hv ▸ hrest v rfl

section
variable {t : Text} {o : Int}

/-! ## The next word -/

/-- What the motion forward passes first: the rest of the run at the offset, or nothing of blanks. -/
theorem word_ahead {n : Nat} (h : n < t.length) : ∃ word : Nat,
    word = (if t.classAt n = .blank then 0 else runLength (t.classAt n) (t.drop n)) ∧
      n + word ≤ t.length ∧ t.Run (t.classAt n) n (n + word : Nat) ∧
      (word = 0 ∧ t.classAt n = .blank ∨
        0 < word ∧ (n + word < t.length → t.classAt (n + word : Nat) ≠ t.classAt n)) := by
  by_cases hblank : t.classAt n = .blank
  · refine ⟨0, by rw [if_pos hblank], by omega, fun j hlow hhigh => ?_, .inl ⟨rfl, hblank⟩⟩
    omega
  · obtain ⟨hle, hrun, hend⟩ := t.run_ahead (t.classAt n) (Nat.le_of_lt h)
    refine ⟨_, by rw [if_neg hblank], hle, hrun, .inr ⟨?_, hend⟩⟩
    -- the scan takes at least the unit at the offset
    apply Nat.pos_of_ne_zero
    intro hzero
    rw [hzero] at hend
    exact hend h rfl

/-- Forward: what is left of the run at the offset, none of it if there is a blank, and then
blanks. -/
theorem nextWord_runs (h : 0 ≤ o) (h' : o < t.length) : ∃ m,
    (m = o ∧ t.classAt o = .blank ∨ o < m ∧ (m < t.length → t.classAt m ≠ t.classAt o)) ∧
      t.Run (t.classAt o) o m ∧ t.Run .blank m (t.nextWord o) ∧
      m ≤ t.nextWord o ∧ t.nextWord o ≤ t.length ∧
      (t.nextWord o < t.length → t.classAt (t.nextWord o) ≠ .blank) := by
  obtain ⟨n, rfl⟩ : ∃ n : Nat, o = n := ⟨o.toNat, by omega⟩
  obtain ⟨word, hword, hle, hrun, hends⟩ := word_ahead (t := t) (n := n) (by omega)
  have hnext : t.nextWord n = (n + word + runLength .blank (t.drop (n + word)) : Nat) := by
    unfold nextWord
    rw [if_neg (Int.not_le.2 h'), Int.toNat_natCast]
    dsimp only
    rw [← hword, List.drop_drop]
  obtain ⟨hle', hrun', hend'⟩ := t.run_ahead .blank hle
  rw [hnext]
  refine ⟨(n + word : Nat), ?_, hrun, hrun', by omega, by omega, fun hlt => hend' (by omega)⟩
  rcases hends with ⟨rfl, hblank⟩ | ⟨hpos, hend⟩
  · exact .inl ⟨rfl, hblank⟩
  · exact .inr ⟨by omega, fun hlt => hend (by omega)⟩

/-- **The next word** begins behind the offset, no word begins between them, and if there is none the
text ends. -/
theorem nextWord_spec (h : 0 ≤ o) (h' : o < t.length) :
    o < t.nextWord o ∧ t.nextWord o ≤ t.length ∧
      (t.nextWord o < t.length → t.WordStart (t.nextWord o)) ∧
      ∀ j, t.WordStart j → o < j → t.nextWord o ≤ j := by
  obtain ⟨m, hm, hrun, hblanks, hle, hlength, hend⟩ := nextWord_runs h h'
  have hlt : o < t.nextWord o := by
    rcases hm with ⟨rfl, hblank⟩ | ⟨hm, -⟩
    · rcases Int.lt_or_eq_of_le hle with hlt | heq
      · exact hlt
      · rw [← heq] at hend
        exact absurd hblank (hend h')
    · omega
  refine ⟨hlt, hlength, fun hx => ⟨by omega, hx, hend hx, .inr ?_⟩, fun j hj hoj => ?_⟩
  · rcases Int.lt_or_eq_of_le hle with hgap | hgap
    · rw [hblanks _ (by omega) (by omega)]
      exact (hend hx).symm
    · -- no blanks: the run at the offset ends there
      rcases hm with ⟨rfl, -⟩ | ⟨-, hturn⟩
      · omega
      · rw [← hgap] at hx ⊢
        rw [hrun _ (by omega) (by omega)]
        exact (hturn hx).symm
  · apply Int.not_lt.1
    intro hjx
    rcases Int.lt_or_le j m with hjm | hmj
    · exact hrun.not_wordStart h hoj hjm hj
    · exact hblanks.not_wordStart_blank hmj hjx hj

theorem nextWord_length (t : Text) : t.nextWord t.length = t.length := by
  unfold nextWord
  rw [if_pos (Int.le_refl _)]

/-! ## The word before -/

/-- A word motion back over blanks to `m` goes to the beginning of the run that ends there. -/
theorem prevWord_eq {n m : Nat} (h : n ≤ t.length)
    (hm : m = n - runLength .blank (t.take n).reverse) :
    t.prevWord n = (m - runLength (t.classAt (m - 1)) (t.take m).reverse : Nat) := by
  have hbehind : (t.take n).reverse.drop (runLength .blank (t.take n).reverse) =
      (t.take m).reverse := by
    rw [List.drop_reverse, List.length_take_of_le h, List.take_take, ← hm,
      Nat.min_eq_left (by omega)]
  unfold prevWord
  rw [if_neg (by omega), Int.toNat_natCast]
  dsimp only
  rw [hbehind, List.length_reverse, List.length_take_of_le h, ← hm]
  cases m with
  | zero => simp
  | succ k =>
    have hk : k < t.length := by omega
    have hlast : t.classAt ((k + 1 : Nat) - 1) = CodeUnit.charClass t[k] := by
      rw [Int.natCast_add, Int.natCast_one, Int.add_sub_cancel, classAt, unitAt?_natCast,
        List.getElem?_eq_getElem hk]
      rfl
    rw [hlast, List.take_add_one, List.getElem?_eq_getElem hk, Option.toList_some,
      List.reverse_concat]

theorem prevWord_runs (h : 0 ≤ o) (h' : o ≤ t.length) : ∃ m,
    (m = 0 ∨ t.classAt (m - 1) ≠ .blank ∧ t.prevWord o < m) ∧
      t.Run .blank m o ∧ t.Run (t.classAt (m - 1)) (t.prevWord o) m ∧
      0 ≤ t.prevWord o ∧ t.prevWord o ≤ m ∧ m ≤ o ∧
      (0 < t.prevWord o → t.classAt (t.prevWord o - 1) ≠ t.classAt (m - 1)) := by
  obtain ⟨n, rfl⟩ : ∃ n : Nat, o = n := ⟨o.toNat, by omega⟩
  obtain ⟨hblanks, hend⟩ := t.run_behind .blank (n := n) (by omega)
  obtain ⟨m, hm⟩ : ∃ m, m = n - runLength .blank (t.take n).reverse := ⟨_, rfl⟩
  rw [← hm] at hblanks hend
  obtain ⟨hrun, hend'⟩ := t.run_behind (t.classAt (m - 1)) (n := m) (by omega)
  rw [prevWord_eq (by omega) hm]
  refine ⟨m, ?_, hblanks, hrun, by omega, by omega, by omega, fun hpos => hend' (by omega)⟩
  rcases Nat.eq_zero_or_pos m with rfl | hpos
  · exact .inl rfl
  · refine .inr ⟨hend hpos, ?_⟩
    -- the scan takes at least the unit before `m`
    have hne : runLength (t.classAt (m - 1)) (t.take m).reverse ≠ 0 := by
      intro hzero
      rw [hzero] at hend'
      exact hend' hpos rfl
    omega

/-- **The word before** begins before the offset, no word begins between them, and if there is none
the text begins. -/
theorem prevWord_spec (h : 0 < o) (h' : o ≤ t.length) :
    0 ≤ t.prevWord o ∧ t.prevWord o < o ∧ (0 < t.prevWord o → t.WordStart (t.prevWord o)) ∧
      ∀ j, t.WordStart j → j < o → j ≤ t.prevWord o := by
  obtain ⟨m, hm, hblanks, hrun, h0, hle, hmo, hend⟩ := prevWord_runs (by omega) h'
  have hlt : t.prevWord o < o := by
    rcases hm with rfl | ⟨-, hm⟩ <;> omega
  refine ⟨h0, hlt, fun hx => ?_, fun j hj hjo => ?_⟩
  · rcases hm with rfl | ⟨hblank, hm⟩
    · omega
    · have hhere := hrun _ (Int.le_refl _) hm
      exact ⟨h0, by omega, by rwa [hhere], .inr (by rw [hhere]; exact hend hx)⟩
  · apply Int.not_lt.1
    intro hxj
    rcases Int.lt_or_le j m with hjm | hmj
    · exact hrun.not_wordStart h0 hxj hjm hj
    · exact hblanks.not_wordStart_blank hmj hjo hj

theorem prevWord_zero (t : Text) : t.prevWord 0 = 0 := rfl

/-! ## Nearest word starts -/

theorem nextWord_isLeast (h : 0 ≤ o) (h' : o ≤ t.length) :
    IsLeast {j | t.WordStart j ∧ o < j} (t.nextWord o) ∨
      (∀ j, t.WordStart j → j ≤ o) ∧ t.nextWord o = t.length := by
  rcases Int.lt_or_eq_of_le h' with hlt | rfl
  · obtain ⟨hbehind, hle, hstart, hleast⟩ := nextWord_spec h hlt
    rcases Int.lt_or_eq_of_le hle with hx | hx
    · refine .inl ⟨⟨hstart hx, hbehind⟩, ?_⟩
      rintro j ⟨hj, hoj⟩
      exact hleast j hj hoj
    · refine .inr ⟨fun j hj => ?_, hx⟩
      apply Int.not_lt.1
      intro hoj
      have hxj := hleast j hj hoj
      have hlength := hj.lt
      omega
  · exact .inr ⟨fun j hj => Int.le_of_lt hj.lt, t.nextWord_length⟩

theorem prevWord_isGreatest (h : 0 ≤ o) (h' : o ≤ t.length) :
    IsGreatest {j | t.WordStart j ∧ j < o} (t.prevWord o) ∨
      (∀ j, t.WordStart j → o ≤ j) ∧ t.prevWord o = 0 := by
  rcases Int.lt_or_eq_of_le h with hpos | rfl
  · obtain ⟨h0, hbefore, hstart, hgreatest⟩ := prevWord_spec hpos h'
    by_cases hx : t.WordStart (t.prevWord o)
    · refine .inl ⟨⟨hx, hbefore⟩, ?_⟩
      rintro j ⟨hj, hjo⟩
      exact hgreatest j hj hjo
    · have hzero : t.prevWord o = 0 :=
        (Int.lt_or_eq_of_le h0).elim (fun hpos => absurd (hstart hpos) hx) Eq.symm
      refine .inr ⟨fun j hj => ?_, hzero⟩
      apply Int.not_lt.1
      intro hjo
      have hj0 : j = 0 := by
        have := hgreatest j hj hjo
        have := hj.nonneg
        omega
      rw [hj0, ← hzero] at hj
      exact hx hj
  · exact .inr ⟨fun j hj => hj.nonneg, t.prevWord_zero⟩

theorem WordStart.prevWord_nextWord (h : t.WordStart o) : t.prevWord (t.nextWord o) = o := by
  have h0 := h.nonneg
  obtain ⟨hbehind, hle, -, hleast⟩ := nextWord_spec h0 h.lt
  obtain ⟨-, hbefore, hstart, hgreatest⟩ := prevWord_spec (by omega) hle
  rcases Int.lt_or_eq_of_le (hgreatest o h hbehind) with hbetween | heq
  · have hnext := hleast _ (hstart (by omega)) hbetween
    omega
  · exact heq.symm

theorem WordStart.nextWord_prevWord (h : t.WordStart o) (hpos : 0 < o) :
    t.nextWord (t.prevWord o) = o := by
  have hlt := h.lt
  obtain ⟨h0, hbefore, -, hgreatest⟩ := prevWord_spec hpos (Int.le_of_lt hlt)
  obtain ⟨hbehind, -, hstart, hleast⟩ := nextWord_spec h0 (Int.lt_trans hbefore hlt)
  rcases Int.lt_or_eq_of_le (hleast o h hbefore) with hbetween | heq
  · have hprev := hgreatest _ (hstart (by omega)) hbetween
    omega
  · exact heq

/-! ## Word starts and characters -/

theorem classAt_of_insidePair (h : t.insidePair o = true) : t.classAt (o - 1) = t.classAt o := by
  unfold insidePair at h
  rw [Bool.and_eq_true, Option.any_eq_true, Option.any_eq_true] at h
  obtain ⟨⟨u, hu, hhigh⟩, v, hv, hlow⟩ := h
  unfold classAt
  rw [hu, hv]
  exact (CodeUnit.charClass_surrogate (.inl hhigh)).trans
    (CodeUnit.charClass_surrogate (.inr hlow)).symm

theorem WordStart.boundary (h : t.WordStart o) : Boundary t o := by
  refine ⟨h.nonneg, Int.le_of_lt h.lt, ?_⟩
  cases hinside : t.insidePair o with
  | false => rfl
  | true =>
    rcases h.turn with rfl | hturn
    · exact absurd (insidePair_bounds hinside).1 (Int.lt_irrefl 0)
    · exact absurd (classAt_of_insidePair hinside) hturn

theorem boundary_nextWord (h : 0 ≤ o) (h' : o ≤ t.length) : Boundary t (t.nextWord o) := by
  rcases nextWord_isLeast h h' with hstart | ⟨-, hend⟩
  · exact hstart.1.1.boundary
  · rw [hend]
    exact t.boundary_length

theorem boundary_prevWord (h : 0 ≤ o) (h' : o ≤ t.length) : Boundary t (t.prevWord o) := by
  rcases prevWord_isGreatest h h' with hstart | ⟨-, hend⟩
  · exact hstart.1.1.boundary
  · rw [hend]
    exact t.boundary_zero

end

/-- **The word motions find the nearest word starts.** From every offset of a text the motion forward
goes to the least word start behind it, or to the end of the text if there is none, and the motion
backward to the greatest word start before it, or to the beginning. So between word starts each takes
the other back. -/
theorem nearest_words (t : Text) :
    (∀ o : Int, 0 ≤ o → o ≤ t.length →
      (IsLeast {j | t.WordStart j ∧ o < j} (t.nextWord o) ∨
        (∀ j, t.WordStart j → j ≤ o) ∧ t.nextWord o = t.length) ∧
      (IsGreatest {j | t.WordStart j ∧ j < o} (t.prevWord o) ∨
        (∀ j, t.WordStart j → o ≤ j) ∧ t.prevWord o = 0)) ∧
    ∀ s, t.WordStart s → t.prevWord (t.nextWord s) = s ∧
      (0 < s → t.nextWord (t.prevWord s) = s) := by
  refine ⟨fun o h h' => ⟨nextWord_isLeast h h', prevWord_isGreatest h h'⟩, fun s hs => ?_⟩
  exact ⟨hs.prevWord_nextWord, fun hpos => hs.nextWord_prevWord hpos⟩

/-- In the text "a, b" words begin at 0, at the comma and at 3. -/
theorem nearest_words_at_comma :
    let t : Text := [97, 44, 32, 98]
    t.WordStart 1 ∧ t.WordStart 3 ∧ IsLeast {j | t.WordStart j ∧ 2 < j} 3 ∧
      t.prevWord (t.nextWord 1) = 1 ∧ t.nextWord (t.prevWord 1) = 1 := by
  intro t
  have hcomma : t.WordStart 1 :=
    ⟨by decide, by decide, by decide +kernel, .inr (by decide +kernel)⟩
  have hlast : t.WordStart 3 :=
    ⟨by decide, by decide, by decide +kernel, .inr (by decide +kernel)⟩
  have hnext : t.nextWord 2 = 3 := by decide +kernel
  have hleast := (t.nearest_words.1 2 (by decide) (by decide)).1.resolve_right
    fun hnone => absurd (hnone.1 3 hlast) (by decide)
  have hback := t.nearest_words.2 1 hcomma
  exact ⟨hcomma, hlast, hnext ▸ hleast, hback.1, hback.2 (by decide)⟩

end Text

end ModalEditor
