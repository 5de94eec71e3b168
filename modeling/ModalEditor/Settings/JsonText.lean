import ModalEditor.Settings.Json

/-!
# JSON text

The written form of JSON values. What an array or an object holds stands on lines of its own, two
spaces further in than its brackets. A string is written with as few escapes as possible: the quote,
the backslash, the control codes, and a surrogate without its other half. Reading a string that was
written gives it back (`string?_escaped`).
-/

namespace ModalEditor

namespace JsonValue

/-! ## Strings -/

/-- The letter that stands for a code unit after a backslash, where there is one. -/
def letter? (u : CodeUnit) : Option CodeUnit :=
  [((0x22 : CodeUnit), (0x22 : CodeUnit)), (0x5C, 0x5C), (0x8, 0x62), (0xC, 0x66), (0xA, 0x6E),
    (0xD, 0x72), (0x9, 0x74)].lookup u

/-- A hexadecimal digit, small where it is a letter. -/
def hexDigit (n : Nat) : CodeUnit := UInt16.ofNat (if n < 10 then 0x30 + n else 0x61 + (n - 10))

/-- A code unit by its number, in four hexadecimal digits. -/
def hexEscape (u : CodeUnit) : Text :=
  [0x5C, 0x75, hexDigit (u.toNat / 0x1000), hexDigit (u.toNat / 0x100 % 0x10),
    hexDigit (u.toNat / 0x10 % 0x10), hexDigit (u.toNat % 0x10)]

/-- A code unit that stands alone, as it is written in a string. -/
def escape (u : CodeUnit) : Text :=
  match letter? u with
  | some v => [0x5C, v]
  | none => if u < 0x20 || CodeUnit.isHigh u || CodeUnit.isLow u then hexEscape u else [u]

/-- A string as it is written between its quotes. -/
def escaped : Text → Text
  | [] => []
  | [u] => escape u
  | u :: v :: rest =>
    if CodeUnit.isHigh u && CodeUnit.isLow v then u :: v :: escaped rest
    else escape u ++ escaped (v :: rest)

/-- A string as it is written. -/
def quoted (t : Text) : Text := 0x22 :: escaped t ++ [0x22]

/-! ## Values -/

/-- A new line at a depth of nesting. -/
def lineBreak (depth : Nat) : Text := newline :: List.replicate (2 * depth) space

/-- Parts between brackets, each on a line of its own; brackets around nothing stay together. -/
def bracketed (opening closing : CodeUnit) (depth : Nat) (parts : List Text) : Text :=
  match parts with
  | [] => [opening, closing]
  | _ =>
    opening :: lineBreak (depth + 1) ++ (0x2C :: lineBreak (depth + 1)).intercalate parts ++
      lineBreak depth ++ [closing]

mutual

/-- A value as it is written at a depth of nesting. A number that no digits write is null. -/
def textAt (depth : Nat) : JsonValue → Text
  | .null => Text.ofString "null"
  | .bool b => Text.ofString (if b then "true" else "false")
  | .number literal =>
    if number? literal = some (literal, []) then literal else Text.ofString "null"
  | .string t => quoted t
  | .array items => bracketed 0x5B 0x5D depth (itemTexts (depth + 1) items)
  | .object members => bracketed 0x7B 0x7D depth (memberTexts (depth + 1) members)

/-- The items of an array as they are written. -/
def itemTexts (depth : Nat) : List JsonValue → List Text
  | [] => []
  | v :: rest => textAt depth v :: itemTexts depth rest

/-- The members of an object as they are written. -/
def memberTexts (depth : Nat) : List (Text × JsonValue) → List Text
  | [] => []
  | (name, v) :: rest =>
    (quoted name ++ Text.ofString ": " ++ textAt depth v) :: memberTexts depth rest

end

/-- A value as it is written. -/
def toText (v : JsonValue) : Text := textAt 0 v

/-! ## Laws -/

theorem hexDigit?_hexDigit {n : Nat} (h : n < 16) : hexDigit? (hexDigit n) = some n := by
  have all : ∀ m : Fin 16, hexDigit? (hexDigit m) = some m.val := by decide
  exact all ⟨n, h⟩

/-- The four digits of a code unit write the code unit. -/
theorem hexUnit?_digits (u : CodeUnit) :
    hexUnit? (hexDigit (u.toNat / 0x1000)) (hexDigit (u.toNat / 0x100 % 0x10))
      (hexDigit (u.toNat / 0x10 % 0x10)) (hexDigit (u.toNat % 0x10)) = some u := by
  have hu : u.toNat < 65536 := u.toNat_lt
  simp only [hexUnit?, hexDigit?_hexDigit (show u.toNat / 0x1000 < 16 by omega),
    hexDigit?_hexDigit (Nat.mod_lt _ (show 0 < 16 by decide)), bind, Option.bind, pure]
  rw [show (u.toNat / 0x1000 * 16 + u.toNat / 0x100 % 0x10) * 256 +
    (u.toNat / 0x10 % 0x10 * 16 + u.toNat % 0x10) = u.toNat by omega, UInt16.ofNat_toNat]

theorem escape?_of_letter? {u v : CodeUnit} (h : letter? u = some v) :
    escape? v = some u ∧ v ≠ 0x75 := by
  unfold letter? at h
  simp only [List.lookup_cons, List.lookup_nil] at h
  repeat' split at h
  all_goals
    simp only [Option.some.injEq, reduceCtorEq, beq_iff_eq] at *
  all_goals
    subst_vars
    decide

theorem string?_quote (t : Text) : string? (0x22 :: t) = some ([], t) := by
  rw [string?.eq_def]
  rfl

/-- A code unit that needs no escape is read as it is. -/
theorem string?_cons {u : CodeUnit} (t : Text) (hq : u ≠ 0x22) (hs : ¬u < 0x20) (hb : u ≠ 0x5C) :
    string? (u :: t) = (string? t).map fun (s, rest) => (u :: s, rest) := by
  rw [string?.eq_def]
  simp only [hq, hs, hb, if_false]
  cases string? t <;> rfl

/-- Half of a surrogate pair needs no escape. -/
theorem string?_surrogate {u : CodeUnit} (t : Text) (h : 0xD800 ≤ u) :
    string? (u :: t) = (string? t).map fun (s, rest) => (u :: s, rest) := by
  have large {x : CodeUnit} (hx : x < 0xD800) : u ≠ x ∧ ¬u < x :=
    ⟨fun e => absurd (e ▸ h) (UInt16.not_le.2 hx),
      UInt16.not_lt.2 (UInt16.le_trans (UInt16.le_of_lt hx) h)⟩
  exact string?_cons t (large (by decide)).1 (large (by decide)).2 (large (by decide)).1

theorem string?_letter {u v : CodeUnit} (t : Text) (h : escape? v = some u) (hv : v ≠ 0x75) :
    string? (0x5C :: v :: t) = (string? t).map fun (s, rest) => (u :: s, rest) := by
  rw [string?.eq_def]
  simp only [show ¬(0x5C : CodeUnit) = 0x22 by decide, show ¬(0x5C : CodeUnit) < 0x20 by decide,
    if_false, if_true]
  split
  · next heq => exact absurd (List.cons.inj heq).1 hv
  · next heq =>
    obtain ⟨rfl, rfl⟩ := List.cons.inj heq
    simp only [h]
    cases string? t <;> rfl
  · next heq => exact absurd heq (List.cons_ne_nil v t)

/-- A code unit that was written is read back, whatever follows. -/
theorem string?_escape (u : CodeUnit) (t : Text) :
    string? (escape u ++ t) = (string? t).map fun (s, rest) => (u :: s, rest) := by
  unfold escape
  split
  · next v hv => exact string?_letter t (escape?_of_letter? hv).1 (escape?_of_letter? hv).2
  · next hnone =>
    split
    · simp only [hexEscape, List.cons_append, List.nil_append]
      rw [string?.eq_def]
      simp only [show ¬(0x5C : CodeUnit) = 0x22 by decide,
        show ¬(0x5C : CodeUnit) < 0x20 by decide, if_false, if_true, hexUnit?_digits]
      cases string? t <;> rfl
    · next h =>
      have hq : u ≠ 0x22 := by rintro rfl; simp [letter?] at hnone
      have hb : u ≠ 0x5C := by rintro rfl; simp [letter?, List.lookup_cons] at hnone
      simp only [Bool.or_eq_true, decide_eq_true_eq, not_or] at h
      exact string?_cons t hq h.1.1 hb

/-- A string that was written is read back up to its closing quote. -/
theorem string?_escaped (t rest : Text) :
    string? (escaped t ++ 0x22 :: rest) = some (t, rest) := by
  fun_induction escaped t with
  | case1 => exact string?_quote rest
  | case2 u => rw [string?_escape, string?_quote]; rfl
  | case3 u v t h ih =>
    simp only [CodeUnit.isHigh, CodeUnit.isLow, Bool.and_eq_true, decide_eq_true_eq] at h
    have hv : (0xD800 : CodeUnit) ≤ v := UInt16.le_trans (by decide) h.2.1
    rw [List.cons_append, List.cons_append, string?_surrogate _ h.1.1, string?_surrogate _ hv, ih]
    rfl
  | case4 u v t h ih => rw [List.append_assoc, string?_escape, ih]; rfl

end JsonValue

end ModalEditor
