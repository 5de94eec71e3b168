import ModalEditor.Proofs.Settings.Fuel
import ModalEditor.Settings.JsonText

/-!
# What is written in JSON is read back

`JsonValue.parse?_toText`: the written form of a value is read as that value, whatever strings are in
it and however deep it is nested, if its numbers are written as numbers are (`JsonValue.IsWritten`).

A value that stands before something else is read up to there (`JsonValue.Reads`), if what follows it
could not go on with a number (`JsonValue.Ends`). The induction is on the value and the lists in it;
`Enough` provides the fuel of the several parts.
-/

namespace ModalEditor

namespace JsonValue

variable {t rest : Text}

/-! ## White space -/

theorem skip_cons_of_not_isSpace {u : CodeUnit} (h : isSpace u = false) (t : Text) :
    skip (u :: t) = u :: t := by
  simp [skip, h]

theorem skip_space (t : Text) : skip (space :: t) = skip t := rfl

theorem skip_lineBreak (depth : Nat) (t : Text) : skip (lineBreak depth ++ t) = skip t := by
  have hspaces : ∀ n, skip (List.replicate n space ++ t) = skip t := fun n => by
    induction n with
    | zero => rfl
    | succ n ih => exact (skip_space _).trans ih
  exact hspaces (2 * depth)

theorem skip_skip (t : Text) : skip (skip t) = skip t := by
  induction t with
  | nil => rfl
  | cons u t ih => cases hu : isSpace u <;> simp_all [skip]

theorem value?_congr {t' : Text} (h : skip t = skip t') (fuel : Nat) :
    value? fuel t = value? fuel t' := by
  cases fuel with
  | zero => rfl
  | succ fuel => rw [value?, value?, h]

theorem items?_congr {t' : Text} (h : skip t = skip t') (fuel : Nat) :
    items? fuel t = items? fuel t' := by
  cases fuel with
  | zero => rfl
  | succ fuel => rw [items?, items?, value?_congr h]

theorem members?_congr {t' : Text} (h : skip t = skip t') (fuel : Nat) :
    members? fuel t = members? fuel t' := by
  cases fuel with
  | zero => rfl
  | succ fuel => rw [members?, members?, h]

/-! ## Words and numbers -/

/-- No number goes on with what follows. -/
def Ends (rest : Text) : Prop :=
  ∀ u ∈ rest.head?, isDigit u = false ∧ u ≠ 0x2E ∧ u ≠ 0x65 ∧ u ≠ 0x45

theorem Ends.digits (h : Ends rest) (t : Text) :
    (t ++ rest).takeWhile isDigit = t.takeWhile isDigit ∧
      (t ++ rest).dropWhile isDigit = t.dropWhile isDigit ++ rest := by
  induction t with
  | nil =>
    cases rest with
    | nil => exact ⟨rfl, rfl⟩
    | cons u rest => simp [(h u rfl).1]
  | cons u t ih => cases hu : isDigit u <;> simp [hu, ih]

theorem digits?_append {ds r : Text} (h : digits? t = some (ds, r)) (hrest : Ends rest) :
    digits? (t ++ rest) = some (ds, r ++ rest) := by
  unfold digits? at h ⊢
  rw [(hrest.digits t).1, (hrest.digits t).2]
  split at h
  · cases h
  · cases h
    rfl

theorem whole?_append {w r : Text} (h : whole? t = some (w, r)) (hrest : Ends rest) :
    whole? (t ++ rest) = some (w, r ++ rest) := by
  unfold whole? at h ⊢
  cases t with
  | nil => cases h
  | cons u t =>
    dsimp only [List.cons_append] at h ⊢
    split at h
    · rename_i hu
      cases h
      rw [if_pos hu]
    · rename_i hu
      rw [if_neg hu]
      exact digits?_append h hrest

theorem fraction?_append {f r : Text} (h : fraction? t = some (f, r)) (hrest : Ends rest) :
    fraction? (t ++ rest) = some (f, r ++ rest) := by
  cases t with
  | nil =>
    cases h
    cases rest with
    | nil => rfl
    | cons u rest => exact if_neg (hrest u rfl).2.1
  | cons u t =>
    unfold fraction? at h ⊢
    dsimp only [List.cons_append] at h ⊢
    by_cases hu : u = 0x2E
    · rw [if_pos hu] at h ⊢
      obtain ⟨⟨ds, r'⟩, hds, heq⟩ := Option.map_eq_some_iff.1 h
      cases heq
      rw [digits?_append hds hrest]
      rfl
    · rw [if_neg hu] at h ⊢
      cases h
      rfl

theorem exponent?_append {e r : Text} (h : exponent? t = some (e, r)) (hrest : Ends rest) :
    exponent? (t ++ rest) = some (e, r ++ rest) := by
  cases t with
  | nil =>
    cases h
    cases rest with
    | nil => rfl
    | cons u rest =>
      obtain ⟨-, -, hsmall, hcapital⟩ := hrest u rfl
      exact if_neg (not_or.2 ⟨hsmall, hcapital⟩)
  | cons u t =>
    unfold exponent? at h ⊢
    dsimp only [List.cons_append] at h ⊢
    by_cases hu : u = 0x65 ∨ u = 0x45
    · rw [if_pos hu] at h ⊢
      cases t with
      | nil => cases h
      | cons v t =>
        dsimp only [List.cons_append] at h ⊢
        by_cases hv : v = 0x2B ∨ v = 0x2D
        · rw [if_pos hv] at h ⊢
          obtain ⟨⟨ds, r'⟩, hds, heq⟩ := Option.map_eq_some_iff.1 h
          cases heq
          rw [digits?_append hds hrest]
          rfl
        · rw [if_neg hv] at h ⊢
          obtain ⟨⟨ds, r'⟩, hds, heq⟩ := Option.map_eq_some_iff.1 h
          cases heq
          rw [← List.cons_append, digits?_append hds hrest]
          rfl
    · rw [if_neg hu] at h ⊢
      cases h
      rfl

theorem number?_append {n r : Text} (h : number? t = some (n, r)) (hrest : Ends rest) :
    number? (t ++ rest) = some (n, r ++ rest) := by
  unfold number? at h ⊢
  cases t with
  | nil => cases h
  | cons u t =>
    dsimp only [List.cons_append] at h ⊢
    split at h
    · rename_i hu
      simp only [Option.bind_eq_bind, Option.bind_eq_some_iff, Option.pure_def, Option.some.injEq,
        Prod.exists, Prod.mk.injEq] at h
      obtain ⟨w, t₁, hw, f, t₂, hf, e, t₃, he, rfl, rfl⟩ := h
      simp [hu, whole?_append hw hrest, fraction?_append hf hrest, exponent?_append he hrest]
    · rename_i hu
      simp only [Option.bind_eq_bind, Option.bind_eq_some_iff, Option.pure_def, Option.some.injEq,
        Prod.exists, Prod.mk.injEq] at h
      obtain ⟨w, t₁, hw, f, t₂, hf, e, t₃, he, rfl, rfl⟩ := h
      have hw : whole? (u :: (t ++ rest)) = some (w, t₁ ++ rest) := whole?_append hw hrest
      simp [hu, hw, fraction?_append hf hrest, exponent?_append he hrest]

theorem head_of_number? {n r : Text} (h : number? t = some (n, r)) :
    ∃ u t', t = u :: t' ∧ (isDigit u = true ∨ u = 0x2D) := by
  unfold number? at h
  cases t with
  | nil => cases h
  | cons u t =>
    refine ⟨u, t, rfl, ?_⟩
    dsimp only at h
    split at h
    · exact .inr ‹_›
    · left
      simp only [Option.bind_eq_bind, Option.bind_eq_some_iff, Prod.exists] at h
      obtain ⟨w, t₁, hw, -⟩ := h
      unfold whole? at hw
      dsimp only at hw
      split at hw
      · rename_i hu
        rw [hu]
        decide
      · unfold digits? at hw
        cases hu : isDigit u with
        | true => rfl
        | false => simp [hu] at hw

theorem after?_append (word rest : Text) : after? word (word ++ rest) = some rest := by
  unfold after?
  rw [List.take_left, if_pos rfl, List.drop_left]

/-! ## Reading what was written -/

/-- With some fuel, `x` is read off a text, up to `rest`. -/
def Reads {α : Type} (read : Nat → Text → Option (α × Text)) (t : Text) (x : α) (rest : Text) : Prop :=
  ∃ fuel, read fuel t = some (x, rest)

mutual

/-- The numbers in a value are written as numbers are. -/
def IsWritten : JsonValue → Prop
  | .null | .bool _ | .string _ => True
  | .number literal => number? literal = some (literal, [])
  | .array items => AreWritten items
  | .object members => MembersWritten members

/-- So are those in the items of an array. -/
def AreWritten : List JsonValue → Prop
  | [] => True
  | v :: rest => IsWritten v ∧ AreWritten rest

/-- So are those in the members of an object. -/
def MembersWritten : List (Text × JsonValue) → Prop
  | [] => True
  | (_, v) :: rest => IsWritten v ∧ MembersWritten rest

end

/-! ### Fuel for several parts -/

theorem Reads.value {v : JsonValue} (h : Reads value? t v rest) {fuel : Nat}
    (hfuel : 2 * t.length ≤ fuel) : value? fuel t = some (v, rest) := by
  obtain ⟨n, hn⟩ := h
  exact ((enough n).value t v rest hn).2 fuel hfuel

theorem Reads.items {vs : List JsonValue} (h : Reads items? t vs rest) {fuel : Nat}
    (hfuel : 2 * t.length + 1 ≤ fuel) : items? fuel t = some (vs, rest) := by
  obtain ⟨n, hn⟩ := h
  exact ((enough n).items t vs rest hn).2 fuel hfuel

theorem Reads.members {ms : List (Text × JsonValue)} (h : Reads members? t ms rest) {fuel : Nat}
    (hfuel : 2 * t.length + 1 ≤ fuel) : members? fuel t = some (ms, rest) := by
  obtain ⟨n, hn⟩ := h
  exact ((enough n).members t ms rest hn).2 fuel hfuel

/-! ### Words, numbers and strings -/

theorem after?_cons_of_ne {u x : CodeUnit} (h : u ≠ x) (word t : Text) :
    after? (x :: word) (u :: t) = none := by
  simp [after?, h]

/-- What begins with no letter of a word can only be a number. -/
theorem plain?_cons {u : CodeUnit} (h : u ≠ 0x6E ∧ u ≠ 0x74 ∧ u ≠ 0x66) (t : Text) :
    plain? (u :: t) = (number? (u :: t)).map fun (literal, rest) => (.number literal, rest) := by
  obtain ⟨hn, ht, hf⟩ := h
  have hnull : after? (Text.ofString "null") (u :: t) = none := after?_cons_of_ne hn _ _
  have htrue : after? (Text.ofString "true") (u :: t) = none := after?_cons_of_ne ht _ _
  have hfalse : after? (Text.ofString "false") (u :: t) = none := after?_cons_of_ne hf _ _
  rw [plain?, hnull, htrue, hfalse]

theorem reads_plain {u : CodeUnit} {v : JsonValue} (hspace : isSpace u = false)
    (hsigns : u ≠ 0x22 ∧ u ≠ 0x5B ∧ u ≠ 0x7B) (h : plain? (u :: t) = some (v, rest)) :
    Reads value? (u :: t) v rest := by
  obtain ⟨hquote, hbracket, hbrace⟩ := hsigns
  refine ⟨1, ?_⟩
  rw [value?, skip_cons_of_not_isSpace hspace]
  split <;> simp_all

theorem reads_number {literal : Text} (h : number? literal = some (literal, [])) (hrest : Ends rest) :
    Reads value? (literal ++ rest) (.number literal) rest := by
  obtain ⟨u, t, rfl, hu⟩ := head_of_number? h
  have hne : ∀ c, ¬ (isDigit c = true ∨ c = 0x2D) → u ≠ c := fun c hc heq => hc (heq ▸ hu)
  have hnumber : number? (u :: (t ++ rest)) = some (u :: t, rest) := number?_append h hrest
  rw [List.cons_append]
  refine reads_plain ?_ ⟨hne _ (by decide), hne _ (by decide), hne _ (by decide)⟩ ?_
  · simp [isSpace, hne _ (by decide : ¬ (isDigit 0x20 = true ∨ _)),
      hne _ (by decide : ¬ (isDigit 0x9 = true ∨ _)), hne _ (by decide : ¬ (isDigit 0xA = true ∨ _)),
      hne _ (by decide : ¬ (isDigit 0xD = true ∨ _))]
  · rw [plain?_cons ⟨hne _ (by decide), hne _ (by decide), hne _ (by decide)⟩, hnumber]
    rfl

theorem reads_null (rest : Text) : Reads value? (Text.ofString "null" ++ rest) .null rest := by
  have hplain : plain? (Text.ofString "null" ++ rest) = some (.null, rest) := by
    rw [plain?, after?_append]
  exact reads_plain (by decide) (by decide) hplain

theorem reads_bool (b : Bool) (rest : Text) :
    Reads value? (Text.ofString (if b then "true" else "false") ++ rest) (.bool b) rest := by
  cases b with
  | true =>
    have hplain : plain? (Text.ofString "true" ++ rest) = some (.bool true, rest) := by
      have hnull : after? (Text.ofString "null") (Text.ofString "true" ++ rest) = none :=
        after?_cons_of_ne (by decide) _ _
      rw [plain?, hnull, after?_append]
    exact reads_plain (by decide) (by decide) hplain
  | false =>
    have hplain : plain? (Text.ofString "false" ++ rest) = some (.bool false, rest) := by
      have hnull : after? (Text.ofString "null") (Text.ofString "false" ++ rest) = none :=
        after?_cons_of_ne (by decide) _ _
      have htrue : after? (Text.ofString "true") (Text.ofString "false" ++ rest) = none :=
        after?_cons_of_ne (by decide) _ _
      rw [plain?, hnull, htrue, after?_append]
    exact reads_plain (by decide) (by decide) hplain

theorem reads_string (s rest : Text) : Reads value? (quoted s ++ rest) (.string s) rest := by
  refine ⟨1, ?_⟩
  have hquoted : quoted s ++ rest = 0x22 :: (escaped s ++ 0x22 :: rest) := by
    simp [quoted]
  rw [hquoted, value?, skip_cons_of_not_isSpace (by decide)]
  simp [string?_escaped]

/-! ### Arrays and objects -/

/-- No value begins with a closing bracket. -/
theorem value?_bracket (fuel : Nat) (ht : skip t = 0x5D :: rest) : value? fuel t = none := by
  have hnumber : number? (0x5D :: rest) = none := by
    simp [number?, whole?, digits?, isDigit]
  have hplain : plain? (0x5D :: rest) = none := by
    rw [plain?_cons (by decide), hnumber]
    rfl
  cases fuel with
  | zero => rfl
  | succ fuel => simp [value?, ht, hplain]

theorem items?_bracket (fuel : Nat) (ht : skip t = 0x5D :: rest) : items? fuel t = none := by
  cases fuel with
  | zero => rfl
  | succ fuel => simp [items?, value?_bracket fuel ht]

theorem members?_brace (fuel : Nat) (ht : skip t = 0x7D :: rest) : members? fuel t = none := by
  cases fuel with
  | zero => rfl
  | succ fuel => simp [members?, ht]

theorem reads_array {items : List JsonValue} (h : Reads items? t items rest) (depth : Nat) :
    Reads value? (0x5B :: (lineBreak depth ++ t)) (.array items) rest := by
  obtain ⟨fuel, hfuel⟩ := h
  have hskip : skip (skip (lineBreak depth ++ t)) = skip t := by rw [skip_skip, skip_lineBreak]
  have hopen : ∀ r, skip (lineBreak depth ++ t) ≠ 0x5D :: r := fun r hr => by
    rw [skip_lineBreak] at hr
    rw [items?_bracket fuel hr] at hfuel
    cases hfuel
  refine ⟨fuel + 1, ?_⟩
  rw [value?, skip_cons_of_not_isSpace (by decide)]
  simp [items?_congr hskip, hfuel]

theorem reads_object {members : List (Text × JsonValue)} (h : Reads members? t members rest)
    (depth : Nat) : Reads value? (0x7B :: (lineBreak depth ++ t)) (.object members) rest := by
  obtain ⟨fuel, hfuel⟩ := h
  have hskip : skip (skip (lineBreak depth ++ t)) = skip t := by rw [skip_skip, skip_lineBreak]
  have hopen : ∀ r, skip (lineBreak depth ++ t) ≠ 0x7D :: r := fun r hr => by
    rw [skip_lineBreak] at hr
    rw [members?_brace fuel hr] at hfuel
    cases hfuel
  refine ⟨fuel + 1, ?_⟩
  rw [value?, skip_cons_of_not_isSpace (by decide)]
  simp [members?_congr hskip, hfuel]

theorem reads_item {v : JsonValue} {tail : Text} (hv : Reads value? t v tail)
    (htail : skip tail = 0x5D :: rest) : Reads items? t [v] rest := by
  obtain ⟨fuel, hfuel⟩ := hv
  exact ⟨fuel + 1, by simp [items?, hfuel, htail]⟩

theorem reads_items_cons {v : JsonValue} {vs : List JsonValue} {depth : Nat} {t' : Text}
    (hv : Reads value? t v (0x2C :: (lineBreak depth ++ t'))) (hvs : Reads items? t' vs rest) :
    Reads items? t (v :: vs) rest := by
  obtain ⟨fuel, hv, hvs⟩ : ∃ fuel, value? fuel t = some (v, 0x2C :: (lineBreak depth ++ t')) ∧
      items? fuel t' = some (vs, rest) :=
    ⟨2 * t.length + (2 * t'.length + 1), hv.value (by omega), hvs.items (by omega)⟩
  refine ⟨fuel + 1, ?_⟩
  simp [items?, hv, skip_cons_of_not_isSpace (show isSpace 0x2C = false by decide),
    items?_congr (skip_lineBreak depth t'), hvs]

theorem skip_name (name t : Text) : skip (quoted name ++ Text.ofString ": " ++ t) =
    0x22 :: (escaped name ++ 0x22 :: 0x3A :: space :: t) := by
  have htext : quoted name ++ Text.ofString ": " ++ t =
      0x22 :: (escaped name ++ 0x22 :: 0x3A :: space :: t) := by
    have hcolon : Text.ofString ": " = [0x3A, space] := by decide
    rw [hcolon]
    simp [quoted]
  rw [htext, skip_cons_of_not_isSpace (by decide)]

theorem reads_member (name : Text) {v : JsonValue} {tail : Text} (hv : Reads value? t v tail)
    (htail : skip tail = 0x7D :: rest) :
    Reads members? (quoted name ++ Text.ofString ": " ++ t) [(name, v)] rest := by
  obtain ⟨fuel, hfuel⟩ := hv
  refine ⟨fuel + 1, ?_⟩
  rw [members?, skip_name]
  simp [string?_escaped, skip_cons_of_not_isSpace (show isSpace 0x3A = false by decide),
    value?_congr (skip_space t), hfuel, htail]

theorem reads_members_cons (name : Text) {v : JsonValue} {ms : List (Text × JsonValue)}
    {depth : Nat} {t' : Text} (hv : Reads value? t v (0x2C :: (lineBreak depth ++ t')))
    (hms : Reads members? t' ms rest) :
    Reads members? (quoted name ++ Text.ofString ": " ++ t) ((name, v) :: ms) rest := by
  obtain ⟨fuel, hv, hms⟩ : ∃ fuel, value? fuel t = some (v, 0x2C :: (lineBreak depth ++ t')) ∧
      members? fuel t' = some (ms, rest) :=
    ⟨2 * t.length + (2 * t'.length + 1), hv.value (by omega), hms.members (by omega)⟩
  refine ⟨fuel + 1, ?_⟩
  rw [members?, skip_name]
  simp [string?_escaped, skip_cons_of_not_isSpace (show isSpace 0x3A = false by decide),
    skip_cons_of_not_isSpace (show isSpace 0x2C = false by decide), value?_congr (skip_space t), hv,
    members?_congr (skip_lineBreak depth t'), hms]

/-! ### Values -/

theorem ends_cons {u : CodeUnit} (h : isDigit u = false ∧ u ≠ 0x2E ∧ u ≠ 0x65 ∧ u ≠ 0x45) (t : Text) :
    Ends (u :: t) := by
  rintro v ⟨⟩
  exact h

theorem ends_lineBreak (depth : Nat) (t : Text) : Ends (lineBreak depth ++ t) :=
  ends_cons (by decide) _

theorem skip_closing {c : CodeUnit} (hc : isSpace c = false) (depth : Nat) (rest : Text) :
    skip (lineBreak depth ++ c :: rest) = c :: rest := by
  rw [skip_lineBreak, skip_cons_of_not_isSpace hc]

theorem bracketed_cons_append (o c : CodeUnit) (depth : Nat) (part : Text) (parts : List Text)
    (rest : Text) : bracketed o c depth (part :: parts) ++ rest =
      o :: (lineBreak (depth + 1) ++ ((0x2C :: lineBreak (depth + 1)).intercalate (part :: parts) ++
        (lineBreak depth ++ c :: rest))) := by
  simp [bracketed]

theorem intercalate_cons_append (depth : Nat) (part part' : Text) (parts : List Text) (tail : Text) :
    (0x2C :: lineBreak depth).intercalate (part :: part' :: parts) ++ tail =
      part ++ 0x2C :: (lineBreak depth ++
        ((0x2C :: lineBreak depth).intercalate (part' :: parts) ++ tail)) := by
  simp [List.intercalate_cons_cons]

mutual

/-- **A value that was written is read** up to what follows it. -/
theorem reads_textAt : ∀ (v : JsonValue), IsWritten v → ∀ (depth : Nat) (rest : Text), Ends rest →
    Reads value? (textAt depth v ++ rest) v rest
  | .null, _, _, rest, _ => reads_null rest
  | .bool b, _, _, rest, _ => reads_bool b rest
  | .number literal, h, _, _, hrest => by
    have h : number? literal = some (literal, []) := by rwa [IsWritten] at h
    rw [textAt, if_pos h]
    exact reads_number h hrest
  | .string s, _, _, rest, _ => reads_string s rest
  | .array [], _, _, _, _ => ⟨1, rfl⟩
  | .array (v :: vs), h, depth, rest, _ => by
    have hitems := reads_itemTexts v vs h (depth + 1) (lineBreak depth ++ 0x5D :: rest) rest
      (skip_closing (by decide) depth rest) (ends_lineBreak depth _)
    rw [textAt, itemTexts, bracketed_cons_append]
    exact reads_array hitems (depth + 1)
  | .object [], _, _, _, _ => ⟨1, rfl⟩
  | .object ((name, v) :: ms), h, depth, rest, _ => by
    have hmembers := reads_memberTexts name v ms h (depth + 1) (lineBreak depth ++ 0x7D :: rest) rest
      (skip_closing (by decide) depth rest) (ends_lineBreak depth _)
    rw [textAt, memberTexts, bracketed_cons_append]
    exact reads_object hmembers (depth + 1)
termination_by v => sizeOf v

theorem reads_itemTexts : ∀ (v : JsonValue) (vs : List JsonValue), AreWritten (v :: vs) →
    ∀ (depth : Nat) (tail rest : Text), skip tail = 0x5D :: rest → Ends tail →
      Reads items? ((0x2C :: lineBreak depth).intercalate (itemTexts depth (v :: vs)) ++ tail)
        (v :: vs) rest
  | v, [], h, depth, tail, _, htail, hends => by
    have hv := reads_textAt v h.1 depth tail hends
    rw [itemTexts, itemTexts, List.intercalate_singleton]
    exact reads_item hv htail
  | v, w :: vs, h, depth, tail, rest, htail, hends => by
    have hvs := reads_itemTexts w vs h.2 depth tail rest htail hends
    have hv := reads_textAt v h.1 depth
      (0x2C :: (lineBreak depth ++
        ((0x2C :: lineBreak depth).intercalate (itemTexts depth (w :: vs)) ++ tail)))
      (ends_cons (by decide) _)
    rw [itemTexts, itemTexts, intercalate_cons_append]
    exact reads_items_cons hv hvs
termination_by v vs => sizeOf (v :: vs)

theorem reads_memberTexts : ∀ (name : Text) (v : JsonValue) (ms : List (Text × JsonValue)),
    MembersWritten ((name, v) :: ms) → ∀ (depth : Nat) (tail rest : Text),
      skip tail = 0x7D :: rest → Ends tail →
      Reads members? ((0x2C :: lineBreak depth).intercalate (memberTexts depth ((name, v) :: ms)) ++
        tail) ((name, v) :: ms) rest
  | name, v, [], h, depth, tail, _, htail, hends => by
    have hv := reads_textAt v h.1 depth tail hends
    rw [memberTexts, memberTexts, List.intercalate_singleton, List.append_assoc]
    exact reads_member name hv htail
  | name, v, (name', w) :: ms, h, depth, tail, rest, htail, hends => by
    have hms := reads_memberTexts name' w ms h.2 depth tail rest htail hends
    have hv := reads_textAt v h.1 depth
      (0x2C :: (lineBreak depth ++
        ((0x2C :: lineBreak depth).intercalate (memberTexts depth ((name', w) :: ms)) ++ tail)))
      (ends_cons (by decide) _)
    rw [memberTexts, memberTexts, intercalate_cons_append, List.append_assoc]
    exact reads_members_cons name hv hms
termination_by name v ms => sizeOf ((name, v) :: ms)

end

/-- **What is written is read back.** -/
theorem parse?_toText {v : JsonValue} (h : IsWritten v) : parse? v.toText = some v := by
  obtain ⟨fuel, hfuel⟩ := reads_textAt v h 0 [] nofun
  rw [List.append_nil] at hfuel
  exact parse?_eq_some_iff.2 ⟨fuel, [], hfuel, rfl⟩

end JsonValue

end ModalEditor
