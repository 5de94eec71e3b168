import ModalEditor.Motion
import ModalEditor.Proofs.Text.Lines

/-!
# Characters and surrogate pairs

A well-formed text may be cut at every offset that is not inside a surrogate pair, and well-formed
texts may be joined. `Text.Boundary t o` says that the offset `o` is such a place of `t`.

Steps by characters look at the pairs, and end on a boundary wherever they start (`Text.boundary_next`,
`Text.boundary_prev`); and where a line begins or ends there is a line feed, which is no half of a pair
(`Text.boundary_lineStart`, `Text.boundary_lineEnd`).
-/

namespace ModalEditor

namespace CodeUnit

theorem isLow_eq_false_of_isHigh {u : CodeUnit} (h : isHigh u = true) : isLow u = false := by
  simp only [isHigh, isLow, Bool.and_eq_true, decide_eq_true_eq, Bool.and_eq_false_iff,
    decide_eq_false_iff_not, UInt16.le_iff_toNat_le] at h ⊢
  have h1 : (0xDBFF : UInt16).toNat = 56319 := rfl
  have h2 : (0xDC00 : UInt16).toNat = 56320 := rfl
  omega

theorem isHigh_eq_false_of_isLow {u : CodeUnit} (h : isLow u = true) : isHigh u = false := by
  cases hh : isHigh u with
  | false => rfl
  | true => rw [isLow_eq_false_of_isHigh hh] at h; cases h

end CodeUnit

namespace Text

/-! ## Well-formed texts -/

theorem head?_of_wellFormed {t : Text} (h : wellFormed t = true) :
    t.head?.any CodeUnit.isLow = false := by
  match t with
  | [] => rfl
  | [u] => simp_all [wellFormed]
  | u :: v :: rest =>
    by_cases hu : CodeUnit.isHigh u = true
    · exact CodeUnit.isLow_eq_false_of_isHigh hu
    · simp_all [wellFormed]

theorem getLast?_of_wellFormed {t : Text} (h : wellFormed t = true) :
    t.getLast?.any CodeUnit.isHigh = false := by
  fun_induction wellFormed t with
  | case1 => rfl
  | case2 u => simp_all
  | case3 u v rest hu ih =>
    rw [Bool.and_eq_true] at h
    cases rest with
    | nil => simp [CodeUnit.isHigh_eq_false_of_isLow h.1]
    | cons w rest => simpa using ih h.2
  | case4 u v rest hu ih =>
    rw [Bool.and_eq_true] at h
    simpa using ih h.2

theorem wellFormed_append_of_left {a b : Text} (ha : wellFormed a = true) :
    wellFormed (a ++ b) = wellFormed b := by
  fun_induction wellFormed a with
  | case1 => rfl
  | case2 u =>
    cases b with
    | nil => simp_all [wellFormed]
    | cons v b => simp_all [wellFormed]
  | case3 u v rest hu ih =>
    rw [Bool.and_eq_true] at ha
    simp only [List.cons_append, wellFormed, if_pos hu, ha.1, Bool.true_and]
    exact ih ha.2
  | case4 u v rest hu ih =>
    rw [Bool.and_eq_true] at ha
    simp only [List.cons_append, wellFormed, if_neg hu, ha.1, Bool.true_and]
    exact ih ha.2

/-- A text that is not cut inside a pair is well formed if both parts are. -/
theorem wellFormed_append {a b : Text}
    (h : (a.getLast?.any CodeUnit.isHigh && b.head?.any CodeUnit.isLow) = false) :
    wellFormed (a ++ b) = (wellFormed a && wellFormed b) := by
  fun_induction wellFormed a with
  | case1 => rfl
  | case2 u =>
    cases b with
    | nil => simp [wellFormed]
    | cons v b =>
      by_cases hu : CodeUnit.isHigh u = true
      · simp_all [wellFormed]
      · simp_all [wellFormed]
  | case3 u v rest hu ih =>
    simp only [List.cons_append, wellFormed, if_pos hu, Bool.and_assoc]
    cases hv : CodeUnit.isLow v with
    | false => rfl
    | true =>
      rw [ih]
      cases rest with
      | nil => rfl
      | cons w rest => simpa using h
  | case4 u v rest hu ih =>
    simp only [List.cons_append, wellFormed, if_neg hu, Bool.and_assoc]
    rw [← List.cons_append, ih (by simpa using h)]

theorem wellFormed_append_of_right {a b : Text} (hb : wellFormed b = true) :
    wellFormed (a ++ b) = wellFormed a := by
  rw [wellFormed_append (by rw [head?_of_wellFormed hb, Bool.and_false]), hb, Bool.and_true]

/-! ## Boundaries -/

/-- The offset lies between the two halves of a surrogate pair. -/
def insidePair (t : Text) (o : Int) : Bool :=
  (t.unitAt? (o - 1)).any CodeUnit.isHigh && (t.unitAt? o).any CodeUnit.isLow

/-- An offset of the text at which a character begins, or its end. -/
structure Boundary (t : Text) (o : Int) : Prop where
  nonneg : 0 ≤ o
  le : o ≤ t.length
  outside : t.insidePair o = false

theorem insidePair_append (a b : Text) : insidePair (a ++ b) a.length =
    (a.getLast?.any CodeUnit.isHigh && b.head?.any CodeUnit.isLow) := by
  have hb : (a ++ b).unitAt? a.length = b.head? := by
    unfold unitAt?
    rw [if_neg (by omega), Int.toNat_natCast, List.getElem?_append_right (Nat.le_refl _),
      Nat.sub_self, List.head?_eq_getElem?]
  have ha : (a ++ b).unitAt? (a.length - 1) = a.getLast? := by
    unfold unitAt?
    rw [List.getLast?_eq_getElem?]
    cases a with
    | nil => rfl
    | cons u a =>
      rw [if_neg (by simp), List.getElem?_append_left (by simp)]
      congr 1
      simp
  unfold insidePair
  rw [ha, hb]

theorem boundary_append {a b : Text}
    (h : (a.getLast?.any CodeUnit.isHigh && b.head?.any CodeUnit.isLow) = false) :
    Boundary (a ++ b) a.length :=
  ⟨by omega, by rw [List.length_append]; omega, by rw [insidePair_append, h]⟩

theorem boundary_of_wellFormed {a b : Text} (ha : wellFormed a = true) :
    Boundary (a ++ b) a.length :=
  boundary_append (by rw [getLast?_of_wellFormed ha, Bool.false_and])

theorem boundary_zero (t : Text) : Boundary t 0 := boundary_append (a := []) rfl

theorem boundary_length (t : Text) : Boundary t t.length := by
  have h : Boundary (t ++ []) t.length := boundary_append (by simp)
  rwa [List.append_nil] at h

theorem exists_append {t : Text} {o : Int} (h : 0 ≤ o) (h' : o ≤ t.length) :
    ∃ a b, t = a ++ b ∧ o = a.length :=
  ⟨_, _, (List.take_append_drop o.toNat t).symm, by rw [List.length_take]; omega⟩

section
variable {t : Text} {o : Int}

theorem Boundary.wellFormed_parts (h : Boundary t o) (ht : wellFormed t = true) :
    wellFormed (t.take o.toNat) = true ∧ wellFormed (t.drop o.toNat) = true := by
  obtain ⟨a, b, rfl, rfl⟩ := exists_append h.nonneg h.le
  have houtside := h.outside
  rw [insidePair_append] at houtside
  rw [wellFormed_append houtside, Bool.and_eq_true] at ht
  simpa using ht

/-! ## Steps by characters -/

theorem unitAt?_natCast (t : Text) (n : Nat) : t.unitAt? n = t[n]? := by
  unfold unitAt?
  rw [if_neg (by omega), Int.toNat_natCast]

/-- Two units of a text make a pair exactly if the offset between them is inside one. -/
theorem isPair_slice {n : Nat} (h : n ≤ t.length) :
    isPair (t.slice n (n + 2)) = t.insidePair (n + 1) := by
  have hslice : t.slice n (n + 2) = (t.drop n).take 2 := by
    have h1 : t.bound n = n := by
      rw [bound_natCast, Nat.min_eq_left h]
    have h2 : t.bound (n + 2) = min (n + 2) t.length := by
      rw [bound_of_nonneg (by omega)]
      omega
    unfold slice
    rw [h1, h2, ← List.take_eq_take_min, List.drop_take, Nat.add_sub_cancel_left]
  have hfirst : t.unitAt? (n + 1 - 1) = (t.drop n)[0]? := by
    rw [Int.add_sub_cancel, unitAt?_natCast, List.getElem?_drop, Nat.add_zero]
  have hsecond : t.unitAt? (n + 1) = (t.drop n)[1]? := by
    rw [List.getElem?_drop, ← unitAt?_natCast, Int.natCast_add]
    rfl
  unfold insidePair
  rw [hslice, hfirst, hsecond]
  match t.drop n with
  | [] => rfl
  | [u] => simp [isPair]
  | u :: v :: rest => rfl

theorem insidePair_next (h : t.insidePair o = true) : t.insidePair (o + 1) = false := by
  unfold insidePair at h ⊢
  rw [Int.add_sub_cancel]
  cases hu : t.unitAt? o with
  | none => rfl
  | some u =>
    rw [hu, Bool.and_eq_true] at h
    have := CodeUnit.isHigh_eq_false_of_isLow h.2
    simp [this]

theorem insidePair_prev (h : t.insidePair o = true) : t.insidePair (o - 1) = false := by
  cases hp : t.insidePair (o - 1) with
  | false => rfl
  | true =>
    have := insidePair_next hp
    rw [Int.sub_add_cancel, h] at this
    cases this

theorem unitAt?_eq_none (h : o < 0 ∨ t.length ≤ o) : t.unitAt? o = none := by
  unfold unitAt?
  split
  · rfl
  · rw [List.getElem?_eq_none (by omega)]

theorem insidePair_bounds (h : t.insidePair o = true) : 0 < o ∧ o < t.length := by
  unfold insidePair at h
  rw [Bool.and_eq_true] at h
  constructor
  · apply Int.not_le.1
    intro ho
    rw [unitAt?_eq_none (.inl (by omega))] at h
    cases h.1
  · apply Int.not_le.1
    intro ho
    rw [unitAt?_eq_none (.inr ho)] at h
    cases h.2

theorem next_eq (h : 0 ≤ o) (h' : o < t.length) :
    t.next o = if t.insidePair (o + 1) then o + 2 else o + 1 := by
  obtain ⟨n, rfl⟩ : ∃ n : Nat, o = n := ⟨o.toNat, by omega⟩
  unfold next
  rw [if_neg (by omega), isPair_slice (by omega)]

theorem prev_eq (h : 0 < o) (h' : o ≤ t.length) :
    t.prev o = if t.insidePair (o - 1) then o - 2 else o - 1 := by
  unfold prev
  rw [if_neg (by omega)]
  by_cases h2 : 2 ≤ o
  · obtain ⟨n, rfl⟩ : ∃ n : Nat, o = n + 2 := ⟨(o - 2).toNat, by omega⟩
    rw [Int.add_sub_cancel, isPair_slice (by omega), show (n : Int) + 2 - 1 = n + 1 by omega]
    simp only [h2, true_and]
  · have houtside : t.insidePair (o - 1) ≠ true := fun hi => by
      have := insidePair_bounds hi
      omega
    rw [if_neg fun hp => h2 hp.1, if_neg houtside]

theorem next_bounds (h : 0 ≤ o) (h' : o ≤ t.length) : o ≤ t.next o ∧ t.next o ≤ t.length := by
  by_cases hl : o < t.length
  · rw [next_eq h hl]
    split
    · have := insidePair_bounds ‹_›
      omega
    · omega
  · unfold next
    rw [if_pos (by omega)]
    omega

theorem prev_bounds (h : 0 ≤ o) (h' : o ≤ t.length) : 0 ≤ t.prev o ∧ t.prev o ≤ o := by
  by_cases hl : 0 < o
  · rw [prev_eq hl h']
    split
    · have := insidePair_bounds ‹_›
      omega
    · omega
  · unfold prev
    rw [if_pos (by omega)]
    omega

theorem boundary_next (h : 0 ≤ o) (h' : o ≤ t.length) : Boundary t (t.next o) := by
  have hb := next_bounds h h'
  refine ⟨by omega, hb.2, ?_⟩
  by_cases hl : o < t.length
  · rw [next_eq h hl]
    split
    · have := insidePair_next ‹_›
      rwa [Int.add_assoc] at this
    · exact Bool.eq_false_iff.2 ‹_›
  · unfold next
    rw [if_pos (by omega)]
    exact t.boundary_length.outside

theorem boundary_prev (h : 0 ≤ o) (h' : o ≤ t.length) : Boundary t (t.prev o) := by
  have hb := prev_bounds h h'
  refine ⟨hb.1, by omega, ?_⟩
  by_cases hl : 0 < o
  · rw [prev_eq hl h']
    split
    · have := insidePair_prev ‹_›
      rwa [Int.sub_sub] at this
    · exact Bool.eq_false_iff.2 ‹_›
  · unfold prev
    rw [if_pos (by omega)]
    exact t.boundary_zero.outside

end

/-! ## Lines -/

theorem boundary_lineStart (t : Text) (line : Int) : Boundary t (t.lineStart line) := by
  obtain ⟨before, after, ht, hs, hbefore, -, -⟩ := t.exists_line line
  generalize t.lineText line = text at ht
  rw [hs, ht, List.append_assoc]
  apply boundary_append
  rcases hbefore with ⟨-, rfl⟩ | ⟨-, p, rfl⟩
  · rfl
  · simp [show CodeUnit.isHigh newline = false by decide]

theorem boundary_lineEnd (t : Text) (line : Int) : Boundary t (t.lineEnd line) := by
  obtain ⟨before, after, ht, hs, -, hafter, -⟩ := t.exists_line line
  unfold lineEnd
  generalize t.lineText line = text at ht
  rw [hs, ht, ← Int.natCast_add, ← List.length_append]
  apply boundary_append
  rcases hafter with ⟨-, rfl⟩ | ⟨-, s, rfl⟩
  · simp
  · simp [show CodeUnit.isLow newline = false by decide]

theorem boundary_lineStart_pred {t : Text} {line : Int} (h : 0 < t.nearestLine line) :
    Boundary t (t.lineStart line - 1) := by
  obtain ⟨before, after, ht, hs, hbefore, -, -⟩ := t.exists_line line
  rcases hbefore with ⟨h0, -⟩ | ⟨-, p, rfl⟩
  · omega
  · generalize t.lineText line = text at ht
    have hp : ((p ++ [newline]).length : Int) - 1 = p.length := by simp
    rw [hs, hp, ht, List.append_assoc, List.append_assoc]
    apply boundary_append
    simp [show CodeUnit.isLow newline = false by decide]

theorem boundary_lineEnd_succ (t : Text) (line : Int) :
    Boundary t (min (t.lineEnd line + 1) t.length) := by
  obtain ⟨before, after, ht, hs, -, hafter, -⟩ := t.exists_line line
  have hlength := congrArg List.length ht
  unfold lineEnd
  rw [hs]
  rcases hafter with ⟨-, rfl⟩ | ⟨-, s, rfl⟩
  · have hmin : min ((before.length : Int) + (t.lineText line).length + 1) t.length = t.length := by
      simp only [List.length_append, List.length_nil] at hlength
      omega
    rw [hmin]
    exact t.boundary_length
  · have hmin : min ((before.length : Int) + (t.lineText line).length + 1) t.length =
        (before ++ t.lineText line ++ [newline]).length := by
      simp only [List.length_append, List.length_cons, List.length_nil] at hlength ⊢
      omega
    rw [hmin]
    generalize t.lineText line = text at ht
    rw [ht, show before ++ text ++ newline :: s = before ++ text ++ [newline] ++ s by simp]
    apply boundary_append
    simp [show CodeUnit.isHigh newline = false by decide]

theorem isHigh_indent {line : Text} {u : CodeUnit} (h : u ∈ line.indent) :
    CodeUnit.isHigh u = false ∧ CodeUnit.isLow u = false := by
  have hu : CodeUnit.isIndent u = true := List.all_eq_true.1 List.all_takeWhile u h
  simp only [CodeUnit.isIndent, Bool.or_eq_true, decide_eq_true_eq] at hu
  rcases hu with rfl | rfl <;> decide

theorem Boundary.past_indent {t line rest : Text} {o : Int} (h : Boundary t o)
    (ht : t.drop o.toNat = line ++ rest) : Boundary t (o + line.indent.length) := by
  obtain ⟨a, b, rfl, rfl⟩ := exists_append h.nonneg h.le
  rw [Int.toNat_natCast, List.drop_left] at ht
  by_cases hne : line.indent = []
  · rw [hne, List.length_nil]
    simpa using h
  · have hline : line.indent ++ line.dropWhile CodeUnit.isIndent = line :=
      List.takeWhile_append_dropWhile
    rw [ht, ← hline, List.append_assoc, ← List.append_assoc, ← Int.natCast_add, hline,
      ← List.length_append]
    apply boundary_append
    rw [List.getLast?_append, Option.or_of_isSome (by simpa using hne)]
    cases hl : line.indent.getLast? with
    | none => rfl
    | some u => simp [(isHigh_indent (List.mem_of_getLast? hl)).1]

theorem drop_lineStart (t : Text) (line : Int) :
    ∃ rest, t.drop (t.lineStart line).toNat = t.lineText line ++ rest := by
  obtain ⟨before, after, ht, hs, -⟩ := t.exists_line line
  refine ⟨after, ?_⟩
  generalize t.lineText line = text at ht ⊢
  rw [hs, ht, Int.toNat_natCast, List.append_assoc, List.drop_left]

end Text

end ModalEditor
