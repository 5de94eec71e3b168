import ModalEditor.Number.Precision
import ModalEditor.Text.Basic

/-!
# Decimal numbers

Offsets are whole numbers, but a caller may hand in a decimal fraction, which an error message has to
show as it was meant. A number is written with the fewest digits that still name it at double
precision (`Decimal.shortest`): positionally from 10⁻⁶ up to below 10²¹, with an exponent outside of
that.
-/

namespace ModalEditor

/-- The number `mantissa / 10 ^ places`. -/
structure Decimal where
  mantissa : Int
  places : Nat := 0
deriving DecidableEq, Repr

namespace Decimal

/-- A whole number. -/
def ofInt (i : Int) : Decimal := ⟨i, 0⟩

/-- The same number with as few digits as possible: trailing zeros after the point are dropped. -/
def normalize (mantissa : Int) : Nat → Decimal
  | 0 => ⟨mantissa, 0⟩
  | p + 1 => if mantissa % 10 = 0 then normalize (mantissa / 10) p else ⟨mantissa, p + 1⟩

/-- The whole number it is, if it is one. -/
def toInt? (d : Decimal) : Option Int :=
  let n := normalize d.mantissa d.places
  if n.places = 0 then some n.mantissa else none

/-- The greatest whole number not above it. -/
def floor (d : Decimal) : Int := d.mantissa / Nat.pow 10 d.places

/-! ## Double precision -/

/-- The binary places in which `n / 10 ^ places` is rounded: more than its significant ones. -/
def binaryPlaces (places : Nat) : Nat := 4 * places + 55

/-- The number kept for `n / 10 ^ places`, as a multiple of `2 ^ -binaryPlaces places`. The last
binary digit stands for whatever comes after it, so that only a true tie counts as one. -/
def kept (n places : Nat) : Nat :=
  let unit := Nat.pow 10 places
  let shifted := n * Nat.pow 2 (binaryPlaces places - 1)
  Precision.roundNat
    (2 * (shifted / unit) + if shifted % unit = 0 then 0 else 1)

/-- The number kept for `n / 10 ^ places`, written out in full. -/
def expand (n places : Nat) : Decimal :=
  let bits := binaryPlaces places
  normalize (kept n places * Nat.pow 5 bits : Nat) bits

/-- A number without its last `drop` digits: the nearer one of its neighbours, if that names the same
number, or else the other one. -/
def cut? (n places drop : Nat) : Option Nat :=
  let unit := Nat.pow 10 drop
  let below := n / unit * unit
  let neighbours :=
    if Precision.quotient n unit = n / unit then [below, below + unit] else [below + unit, below]
  neighbours.find? fun m => kept m places = kept n places

/-- The fewest digits that name a number, for `n / 10 ^ places` written out in full. -/
def fewest (n places : Nat) : Nat :=
  ((List.range (Nat.toDigits 10 n).length).reverse.findSome? (cut? n places)).getD n

/-- The number kept for a number, in the fewest digits that name it. -/
def shortest (d : Decimal) : Decimal :=
  if d.places = 0 ∧ d.mantissa.natAbs ≤ Precision.limit then d
  else
    let full := expand d.mantissa.natAbs d.places
    let n := fewest full.mantissa.natAbs full.places
    normalize (if d.mantissa < 0 then -(n : Int) else n) full.places

/-- Beyond every number that can be kept. -/
def isInfinite (d : Decimal) : Bool := Precision.isInfinite (d.mantissa.natAbs / Nat.pow 10 d.places)

/-! ## Writing -/

/-- Digits without trailing zeros. -/
def significant (digits : List Char) : List Char := (digits.reverse.dropWhile (· = '0')).reverse

/-- Digits with an exponent: one digit before the point. -/
def scientific (digits : List Char) (exponent : Int) : List Char :=
  let fraction := (significant digits).drop 1
  digits.take 1 ++ (if fraction.isEmpty then [] else '.' :: fraction) ++ ['e'] ++
    (if exponent < 0 then ['-'] else ['+']) ++ Nat.toDigits 10 exponent.natAbs

/-- The digits of `digits / 10 ^ places`, written with or without an exponent. -/
def layout (digits : List Char) (places : Nat) : List Char :=
  let point : Int := (digits.length : Int) - places
  if digits = ['0'] then digits
  else if 0 < point ∧ point ≤ 21 then
    let whole := digits.take point.toNat
    let fraction := digits.drop point.toNat
    if fraction.isEmpty then whole else whole ++ '.' :: fraction
  else if -6 < point ∧ point ≤ 0 then '0' :: '.' :: List.replicate (-point).toNat '0' ++ digits
  else scientific digits (point - 1)

/-- The number as text. -/
def toText (d : Decimal) : Text :=
  let n := d.shortest
  let written :=
    if d.isInfinite then "Infinity".toList else layout (Nat.toDigits 10 n.mantissa.natAbs) n.places
  Text.ofString (String.ofList (if n.mantissa < 0 then '-' :: written else written))

/-! ## Laws -/

theorem toInt?_ofInt (i : Int) : (ofInt i).toInt? = some i := rfl

/-- Whole numbers up to 2⁵³ are kept, so all their digits are needed. -/
theorem shortest_ofInt {i : Int} (h : i.natAbs ≤ Precision.limit) : (ofInt i).shortest = ofInt i :=
  if_pos ⟨rfl, h⟩

/-- The fewest digits still name the number. -/
theorem kept_fewest (n places : Nat) : kept (fewest n places) places = kept n places := by
  unfold fewest
  cases hf : (List.range (Nat.toDigits 10 n).length).reverse.findSome? (cut? n places) with
  | none => rfl
  | some m =>
    obtain ⟨drop, _, hc⟩ := List.exists_of_findSome?_eq_some hf
    simpa using List.find?_some hc

end Decimal

end ModalEditor
