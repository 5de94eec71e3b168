import ModalEditor.Settings.Json

/-!
# JSON is read to its end

The reader of JSON is given fuel by the length of the text. `JsonValue.parse?_eq_some_iff`: it is
never short of it. Whatever some fuel reads as a value, the fuel of `JsonValue.parse?` reads as the
same value; so a text is refused for its form alone.

Every token takes at least one code unit (`string?_length`, `plain?_length`). Therefore what is read
within a value, an item or a member is shorter than the text it begins, and so is the fuel it needs
(`JsonValue.Suffices`).
-/

namespace ModalEditor

namespace JsonValue

variable {t rest : Text}

/-! ## Tokens -/

theorem skip_length_le (t : Text) : (skip t).length ≤ t.length :=
  (List.dropWhile_sublist _).length_le

theorem digits?_length {ds : Text} (h : digits? t = some (ds, rest)) : rest.length < t.length := by
  have hsplit := congrArg List.length (List.takeWhile_append_dropWhile (p := isDigit) (l := t))
  unfold digits? at h
  split at h
  · cases h
  · rename_i hne
    cases h
    have := List.length_pos_iff.2 hne
    rw [List.length_append] at hsplit
    omega

theorem whole?_length {w : Text} (h : whole? t = some (w, rest)) : rest.length < t.length := by
  unfold whole? at h
  split at h
  · cases h
  · split at h
    · cases h
      exact Nat.lt_succ_self _
    · exact digits?_length h

theorem fraction?_length {f : Text} (h : fraction? t = some (f, rest)) : rest.length ≤ t.length := by
  unfold fraction? at h
  split at h
  · cases h
    exact Nat.le_refl _
  · split at h
    · obtain ⟨⟨ds, rest'⟩, hds, heq⟩ := Option.map_eq_some_iff.1 h
      cases heq
      exact Nat.le_succ_of_le (Nat.le_of_lt (digits?_length hds))
    · cases h
      exact Nat.le_refl _

theorem exponent?_length {e : Text} (h : exponent? t = some (e, rest)) : rest.length ≤ t.length := by
  unfold exponent? at h
  split at h
  · cases h
    exact Nat.le_refl _
  split at h
  · split at h
    · cases h
    split at h <;> obtain ⟨⟨ds, rest'⟩, hds, heq⟩ := Option.map_eq_some_iff.1 h <;> cases heq
    · exact Nat.le_succ_of_le (Nat.le_succ_of_le (Nat.le_of_lt (digits?_length hds)))
    · exact Nat.le_succ_of_le (Nat.le_of_lt (digits?_length hds))
  · cases h
    exact Nat.le_refl _

theorem number?_length {n : Text} (h : number? t = some (n, rest)) : rest.length < t.length := by
  unfold number? at h
  cases t with
  | nil => cases h
  | cons u t =>
    dsimp only at h
    -- with or without a sign before it
    split at h
    all_goals
      simp only [Option.bind_eq_bind, Option.bind_eq_some_iff, Option.pure_def, Option.some.injEq,
        Prod.exists, Prod.mk.injEq] at h
      obtain ⟨w, t₁, hw, f, t₂, hf, e, t₃, he, -, rfl⟩ := h
      have hwhole := whole?_length hw
      have := fraction?_length hf
      have := exponent?_length he
      simp only [List.length_cons] at hwhole ⊢
      omega

theorem string?_length {s : Text} (h : string? t = some (s, rest)) : rest.length < t.length := by
  fun_induction string? t generalizing s with
  | case1 => cases h
  | case2 =>
    cases h
    exact Nat.lt_succ_self _
  | case3 => cases h
  | case4 a b c d t _ _ ih =>
    simp only [Option.bind_eq_bind, Option.bind_eq_some_iff, Option.pure_def, Option.some.injEq,
      Prod.exists, Prod.mk.injEq] at h
    obtain ⟨_, -, s', rest', hs, -, rfl⟩ := h
    have := ih hs
    simp only [List.length_cons]
    omega
  | case5 v t _ _ _ ih =>
    simp only [Option.bind_eq_bind, Option.bind_eq_some_iff, Option.pure_def, Option.some.injEq,
      Prod.exists, Prod.mk.injEq] at h
    obtain ⟨_, -, s', rest', hs, -, rfl⟩ := h
    have := ih hs
    simp only [List.length_cons]
    omega
  | case6 => cases h
  | case7 u t _ _ _ ih =>
    simp only [Option.bind_eq_bind, Option.bind_eq_some_iff, Option.pure_def, Option.some.injEq,
      Prod.exists, Prod.mk.injEq] at h
    obtain ⟨s', rest', hs, -, rfl⟩ := h
    exact Nat.lt_succ_of_lt (ih hs)

theorem after?_length {word : Text} (hword : word ≠ []) (h : after? word t = some rest) :
    rest.length < t.length := by
  unfold after? at h
  split at h
  · rename_i heq
    cases h
    have hlength := congrArg List.length heq
    have := List.length_pos_iff.2 hword
    rw [List.length_take] at hlength
    rw [List.length_drop]
    omega
  · cases h

theorem plain?_length {v : JsonValue} (h : plain? t = some (v, rest)) : rest.length < t.length := by
  unfold plain? at h
  cases hnull : after? (Text.ofString "null") t with
  | some rest' =>
    rw [hnull] at h
    cases h
    exact after?_length (by decide) hnull
  | none =>
    cases htrue : after? (Text.ofString "true") t with
    | some rest' =>
      rw [hnull, htrue] at h
      cases h
      exact after?_length (by decide) htrue
    | none =>
      cases hfalse : after? (Text.ofString "false") t with
      | some rest' =>
        rw [hnull, htrue, hfalse] at h
        cases h
        exact after?_length (by decide) hfalse
      | none =>
        rw [hnull, htrue, hfalse] at h
        obtain ⟨⟨literal, rest'⟩, hnumber, heq⟩ := Option.map_eq_some_iff.1 h
        cases heq
        exact number?_length hnumber

/-! ## Fuel -/

/-- What is read with some fuel is read with any fuel from `bound` on. -/
def Suffices {α : Type} (read : Nat → Text → Option (α × Text)) (bound : Nat) (t : Text)
    (x : α) (rest : Text) : Prop :=
  rest.length < t.length ∧ ∀ fuel, bound ≤ fuel → read fuel t = some (x, rest)

/-- Twice the length of a text is fuel enough for a value, and one more for items and members. -/
structure Enough (n : Nat) : Prop where
  value : ∀ t v rest, value? n t = some (v, rest) → Suffices value? (2 * t.length) t v rest
  items : ∀ t vs rest, items? n t = some (vs, rest) → Suffices items? (2 * t.length + 1) t vs rest
  members : ∀ t ms rest, members? n t = some (ms, rest) →
    Suffices members? (2 * t.length + 1) t ms rest

theorem suffices_of_succ {α : Type} {read : Nat → Text → Option (α × Text)} {bound : Nat} {x : α}
    (hshort : rest.length < t.length) (hbound : 0 < bound)
    (h : ∀ fuel, bound ≤ fuel + 1 → read (fuel + 1) t = some (x, rest)) :
    Suffices read bound t x rest := by
  refine ⟨hshort, fun fuel hfuel => ?_⟩
  cases fuel with
  | zero => omega
  | succ fuel => exact h fuel hfuel

theorem Enough.succ_value {n : Nat} (h : Enough n) {v : JsonValue}
    (hv : value? (n + 1) t = some (v, rest)) : Suffices value? (2 * t.length) t v rest := by
  have hskip := skip_length_le t
  rw [value?] at hv
  split at hv
  · rename_i t₁ ht
    rw [ht, List.length_cons] at hskip
    obtain ⟨⟨s, rest'⟩, hs, heq⟩ := Option.map_eq_some_iff.1 hv
    cases heq
    have := string?_length hs
    exact suffices_of_succ (by omega) (by omega) fun fuel _ => by simp [value?, ht, hs]
  · rename_i t₁ ht
    rw [ht, List.length_cons] at hskip
    have hskip₁ := skip_length_le t₁
    split at hv
    · rename_i t₂ ht₂
      cases hv
      rw [ht₂, List.length_cons] at hskip₁
      exact suffices_of_succ (by omega) (by omega) fun fuel _ => by simp [value?, ht, ht₂]
    · obtain ⟨⟨vs, rest'⟩, hvs, heq⟩ := Option.map_eq_some_iff.1 hv
      cases heq
      obtain ⟨hshort, henough⟩ := h.items _ _ _ hvs
      refine suffices_of_succ (by omega) (by omega) fun fuel hfuel => ?_
      simp [value?, ht, henough fuel (by omega)]
  · rename_i t₁ ht
    rw [ht, List.length_cons] at hskip
    have hskip₁ := skip_length_le t₁
    split at hv
    · rename_i t₂ ht₂
      cases hv
      rw [ht₂, List.length_cons] at hskip₁
      exact suffices_of_succ (by omega) (by omega) fun fuel _ => by simp [value?, ht, ht₂]
    · obtain ⟨⟨ms, rest'⟩, hms, heq⟩ := Option.map_eq_some_iff.1 hv
      cases heq
      obtain ⟨hshort, henough⟩ := h.members _ _ _ hms
      refine suffices_of_succ (by omega) (by omega) fun fuel hfuel => ?_
      simp [value?, ht, henough fuel (by omega)]
  · have := plain?_length hv
    exact suffices_of_succ (by omega) (by omega) fun fuel _ => by simp [value?, hv]

theorem Enough.succ_items {n : Nat} (h : Enough n) {vs : List JsonValue}
    (hvs : items? (n + 1) t = some (vs, rest)) : Suffices items? (2 * t.length + 1) t vs rest := by
  simp only [items?, Option.bind_eq_bind, Option.bind_eq_some_iff, Prod.exists] at hvs
  obtain ⟨v, t₁, hv, hrest⟩ := hvs
  obtain ⟨hshort, henough⟩ := h.value _ _ _ hv
  have hskip := skip_length_le t₁
  split at hrest
  · rename_i t₂ ht
    rw [ht, List.length_cons] at hskip
    simp only [Option.bind_eq_some_iff, Option.pure_def, Option.some.injEq, Prod.exists,
      Prod.mk.injEq] at hrest
    obtain ⟨vs', t₃, hvs', rfl, rfl⟩ := hrest
    obtain ⟨hshort', henough'⟩ := h.items _ _ _ hvs'
    refine suffices_of_succ (by omega) (by omega) fun fuel hfuel => ?_
    simp [items?, henough fuel (by omega), ht, henough' fuel (by omega)]
  · rename_i t₂ ht
    cases hrest
    rw [ht, List.length_cons] at hskip
    refine suffices_of_succ (by omega) (by omega) fun fuel hfuel => ?_
    simp [items?, henough fuel (by omega), ht]
  · cases hrest

theorem Enough.succ_members {n : Nat} (h : Enough n) {ms : List (Text × JsonValue)}
    (hms : members? (n + 1) t = some (ms, rest)) :
    Suffices members? (2 * t.length + 1) t ms rest := by
  have hskip := skip_length_le t
  rw [members?] at hms
  split at hms
  · rename_i t₁ ht
    rw [ht, List.length_cons] at hskip
    simp only [Option.bind_eq_bind, Option.bind_eq_some_iff, Prod.exists] at hms
    obtain ⟨name, t₂, hname, hms⟩ := hms
    have := string?_length hname
    have hskip₂ := skip_length_le t₂
    split at hms
    · rename_i t₃ ht₃
      rw [ht₃, List.length_cons] at hskip₂
      simp only [Option.bind_eq_some_iff, Prod.exists] at hms
      obtain ⟨v, t₄, hv, hms⟩ := hms
      obtain ⟨hshort, henough⟩ := h.value _ _ _ hv
      have hskip₄ := skip_length_le t₄
      split at hms
      · rename_i t₅ ht₅
        rw [ht₅, List.length_cons] at hskip₄
        simp only [Option.bind_eq_some_iff, Option.pure_def, Option.some.injEq, Prod.exists,
          Prod.mk.injEq] at hms
        obtain ⟨ms', t₆, hms', rfl, rfl⟩ := hms
        obtain ⟨hshort', henough'⟩ := h.members _ _ _ hms'
        refine suffices_of_succ (by omega) (by omega) fun fuel hfuel => ?_
        simp [members?, ht, hname, ht₃, henough fuel (by omega), ht₅, henough' fuel (by omega)]
      · rename_i t₅ ht₅
        cases hms
        rw [ht₅, List.length_cons] at hskip₄
        refine suffices_of_succ (by omega) (by omega) fun fuel hfuel => ?_
        simp [members?, ht, hname, ht₃, henough fuel (by omega), ht₅]
      · cases hms
    · cases hms
  · cases hms

theorem enough (n : Nat) : Enough n := by
  induction n with
  | zero => exact ⟨nofun, nofun, nofun⟩
  | succ n ih =>
    exact ⟨fun _ _ _ => ih.succ_value, fun _ _ _ => ih.succ_items, fun _ _ _ => ih.succ_members⟩

/-- **A text is read** if any fuel reads it. -/
theorem parse?_eq_some_iff {v : JsonValue} :
    parse? t = some v ↔ ∃ fuel rest, value? fuel t = some (v, rest) ∧ skip rest = [] := by
  constructor
  · intro h
    unfold parse? at h
    split at h
    · rename_i v' rest hv
      split at h
      · cases h
        exact ⟨_, rest, hv, by assumption⟩
      · cases h
    · cases h
  · rintro ⟨fuel, rest, hv, hrest⟩
    have henough := ((enough fuel).value t v rest hv).2 (2 * t.length + 2) (by omega)
    unfold parse?
    rw [henough]
    exact if_pos hrest

end JsonValue

end ModalEditor
