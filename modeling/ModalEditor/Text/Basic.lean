/-!
# Text as UTF-16 code units

`Text` is a sequence of code units, in which half of a surrogate pair may stand alone. Offsets are
integers: any offset may be asked about, and `Text.clamp` brings it into the text. `Text.slice` also
takes offsets that count from the end, which is what a negative offset means there.
-/

namespace ModalEditor

/-- One UTF-16 code unit. -/
abbrev CodeUnit := UInt16

/-- A sequence of UTF-16 code units; a surrogate may stand without its other half. -/
abbrev Text := List CodeUnit

/-- The line separator. -/
def newline : CodeUnit := 10

/-- The horizontal tab. -/
def tab : CodeUnit := 9

/-- The carriage return. -/
def carriageReturn : CodeUnit := 13

/-- The blank of every line's indentation. -/
def space : CodeUnit := 32

/-! ## Surrogates -/

/-- The first half of a surrogate pair. -/
def CodeUnit.isHigh (u : CodeUnit) : Bool := 0xD800 ≤ u && u ≤ 0xDBFF

/-- The second half of a surrogate pair. -/
def CodeUnit.isLow (u : CodeUnit) : Bool := 0xDC00 ≤ u && u ≤ 0xDFFF

namespace Text

/-- Exactly the two halves of one surrogate pair. -/
def isPair : Text → Bool
  | [u, v] => CodeUnit.isHigh u && CodeUnit.isLow v
  | _ => false

/-- Every surrogate stands in a pair, high half first. -/
def wellFormed : Text → Bool
  | [] => true
  | [u] => !CodeUnit.isHigh u && !CodeUnit.isLow u
  | u :: v :: rest =>
    if CodeUnit.isHigh u then CodeUnit.isLow v && wellFormed rest
    else !CodeUnit.isLow u && wellFormed (v :: rest)

/-! ## Characters -/

/-- The code units of a code point: one, or a surrogate pair from U+10000 on. -/
def ofPoint (n : Nat) : Text :=
  if n < 0x10000 then [UInt16.ofNat n]
  else [UInt16.ofNat (0xD800 + (n - 0x10000) / 0x400), UInt16.ofNat (0xDC00 + (n - 0x10000) % 0x400)]

/-- The code units of a character string. -/
def ofString (s : String) : Text := s.toList.flatMap fun c => ofPoint c.toNat

/-- The code point of a surrogate pair. -/
def pairPoint (u v : CodeUnit) : Nat :=
  0x10000 + (u.toNat - 0xD800) * 0x400 + (v.toNat - 0xDC00)

/-- The code points of a text; a lone surrogate stands for itself. -/
def codePoints : Text → List Nat
  | [] => []
  | [u] => [u.toNat]
  | u :: v :: rest =>
    if CodeUnit.isHigh u && CodeUnit.isLow v then pairPoint u v :: codePoints rest
    else u.toNat :: codePoints (v :: rest)

/-- The character string a text writes, if it is well formed. -/
def toString? (t : Text) : Option String :=
  if wellFormed t then some (String.ofList (t.codePoints.map Char.ofNat)) else none

/-- Decimal digits of a natural number. -/
def ofNat (n : Nat) : Text := ofString (toString n)

/-! ## Offsets and slices -/

/-- The nearest offset inside the text. -/
def clamp (t : Text) (o : Int) : Int := max 0 (min o t.length)

/-- Where a slice bound falls: a negative bound counts from the end, and no bound leaves the text. -/
def bound (t : Text) (o : Int) : Nat :=
  if o < 0 then (t.length + o).toNat else min o.toNat t.length

/-- The code units from `start` up to but not including `stop`. -/
def slice (t : Text) (start stop : Int) : Text := (t.take (t.bound stop)).drop (t.bound start)

/-- Everything before `stop`. -/
def before (t : Text) (stop : Int) : Text := t.take (t.bound stop)

/-- Everything from `start` on. -/
def following (t : Text) (start : Int) : Text := t.drop (t.bound start)

/-- The code unit at an offset, if the offset lies in the text. -/
def unitAt? (t : Text) (o : Int) : Option CodeUnit := if o < 0 then none else t[o.toNat]?

/-! ## Laws of offsets and slices -/

theorem clamp_nonneg (t : Text) (o : Int) : 0 ≤ t.clamp o := by
  unfold clamp; omega

theorem clamp_le (t : Text) (o : Int) : t.clamp o ≤ t.length := by
  unfold clamp; omega

theorem clamp_of_mem {t : Text} {o : Int} (h : 0 ≤ o) (h' : o ≤ t.length) : t.clamp o = o := by
  unfold clamp; omega

theorem clamp_mono (t : Text) {o o' : Int} (h : o ≤ o') : t.clamp o ≤ t.clamp o' := by
  unfold clamp; omega

theorem bound_of_nonneg {t : Text} {o : Int} (h : 0 ≤ o) : t.bound o = min o.toNat t.length :=
  if_neg (Int.not_lt.2 h)

theorem bound_natCast (t : Text) (n : Nat) : t.bound n = min n t.length := by
  rw [bound_of_nonneg (Int.natCast_nonneg n), Int.toNat_natCast]

theorem before_natCast (t : Text) (n : Nat) : t.before n = t.take n := by
  rw [before, bound_natCast, ← List.take_eq_take_min]

theorem following_natCast (t : Text) (n : Nat) : t.following n = t.drop n := by
  rw [following, bound_natCast, ← List.drop_eq_drop_min]

theorem slice_of_mem {t : Text} {a b : Int} (ha : 0 ≤ a) (ha' : a ≤ t.length) (hb : 0 ≤ b)
    (hb' : b ≤ t.length) : t.slice a b = (t.take b.toNat).drop a.toNat := by
  unfold slice
  rw [bound_of_nonneg ha, bound_of_nonneg hb, Nat.min_eq_left (by omega), Nat.min_eq_left (by omega)]

end Text

end ModalEditor
