import ModalEditor.Text.Basic

/-!
# JSON

The values of RFC 8259 and a strict reader: no comments, no trailing commas, white space only of the
four kinds, and nothing but white space after the value. Numbers are kept as they are written. Where
an object names a member twice, the last one counts.
-/

namespace ModalEditor

/-- A JSON value. -/
inductive JsonValue where
  | null
  | bool (b : Bool)
  | number (literal : Text)
  | string (t : Text)
  | array (items : List JsonValue)
  | object (members : List (Text × JsonValue))
deriving Inhabited

namespace JsonValue

/-- The member of an object, the last of its name. -/
def member? (v : JsonValue) (name : Text) : Option JsonValue :=
  match v with
  | .object members => members.reverse.lookup name
  | _ => none

/-! ## Tokens -/

/-- Space, tab, line feed and carriage return. -/
def isSpace (u : CodeUnit) : Bool := u = 0x20 || u = 0x9 || u = 0xA || u = 0xD

/-- A text without the white space it begins with. -/
def skip (t : Text) : Text := t.dropWhile isSpace

/-- A decimal digit. -/
def isDigit (u : CodeUnit) : Bool := 0x30 ≤ u && u ≤ 0x39

/-- The digits a text begins with, at least one, and the rest. -/
def digits? (t : Text) : Option (Text × Text) :=
  match t.takeWhile isDigit with
  | [] => none
  | ds => some (ds, t.dropWhile isDigit)

/-- The whole part of a number: zero, or digits that do not begin with zero. -/
def whole? (t : Text) : Option (Text × Text) :=
  match t with
  | [] => none
  | u :: rest => if u = 0x30 then some ([u], rest) else digits? t

/-- The part after the point, if there is a point. -/
def fraction? (t : Text) : Option (Text × Text) :=
  match t with
  | [] => some ([], [])
  | u :: rest =>
    if u = 0x2E then (digits? rest).map fun (ds, rest) => (u :: ds, rest) else some ([], t)

/-- The exponent, if there is one. -/
def exponent? (t : Text) : Option (Text × Text) :=
  match t with
  | [] => some ([], [])
  | u :: rest =>
    if u = 0x65 ∨ u = 0x45 then
      match rest with
      | [] => none
      | v :: rest' =>
        if v = 0x2B ∨ v = 0x2D then (digits? rest').map fun (ds, rest) => (u :: v :: ds, rest)
        else (digits? rest).map fun (ds, rest) => (u :: ds, rest)
    else some ([], t)

/-- A number as it is written, and the rest. -/
def number? (t : Text) : Option (Text × Text) := do
  let (sign, t) := match t with
    | u :: rest => if u = 0x2D then ([u], rest) else ([], t)
    | [] => ([], t)
  let (whole, t) ← whole? t
  let (fraction, t) ← fraction? t
  let (exponent, t) ← exponent? t
  return (sign ++ whole ++ fraction ++ exponent, t)

/-- The value of a hexadecimal digit. -/
def hexDigit? (u : CodeUnit) : Option Nat :=
  let n := u.toNat
  if 0x30 ≤ n ∧ n ≤ 0x39 then some (n - 0x30)
  else if 0x41 ≤ n ∧ n ≤ 0x46 then some (n - 0x41 + 10)
  else if 0x61 ≤ n ∧ n ≤ 0x66 then some (n - 0x61 + 10)
  else none

/-- The code unit that a letter after a backslash stands for. -/
def escape? (u : CodeUnit) : Option CodeUnit :=
  [((0x22 : CodeUnit), (0x22 : CodeUnit)), (0x5C, 0x5C), (0x2F, 0x2F), (0x62, 0x8), (0x66, 0xC),
    (0x6E, 0xA), (0x72, 0xD), (0x74, 0x9)].lookup u

/-- The code unit of four hexadecimal digits. -/
def hexUnit? (a b c d : CodeUnit) : Option CodeUnit := do
  return UInt16.ofNat
    (((← hexDigit? a) * 16 + (← hexDigit? b)) * 256 + ((← hexDigit? c) * 16 + (← hexDigit? d)))

/-- What follows an opening quote: the string up to the closing quote, and the rest. -/
def string? : Text → Option (Text × Text)
  | [] => none
  | u :: rest =>
    if u = 0x22 then some ([], rest)
    else if u < 0x20 then none
    else if u = 0x5C then
      match rest with
      | 0x75 :: a :: b :: c :: d :: rest => do
        let unit ← hexUnit? a b c d
        let (t, rest) ← string? rest
        return (unit :: t, rest)
      | v :: rest => do
        let unit ← escape? v
        let (t, rest) ← string? rest
        return (unit :: t, rest)
      | [] => none
    else do
      let (t, rest) ← string? rest
      return (u :: t, rest)

/-- The text after a word it begins with. -/
def after? (word t : Text) : Option Text :=
  if t.take word.length = word then some (t.drop word.length) else none

/-- A value of one word or one number, and the rest. -/
def plain? (t : Text) : Option (JsonValue × Text) :=
  match after? (Text.ofString "null") t, after? (Text.ofString "true") t,
      after? (Text.ofString "false") t with
  | some rest, _, _ => some (.null, rest)
  | _, some rest, _ => some (.bool true, rest)
  | _, _, some rest => some (.bool false, rest)
  | _, _, _ => (number? t).map fun (literal, rest) => (.number literal, rest)

/-! ## Values -/

mutual

/-- A value and the rest; `fuel` bounds the nesting and the number of items together. -/
def value? : Nat → Text → Option (JsonValue × Text)
  | 0, _ => none
  | fuel + 1, t =>
    match skip t with
    | 0x22 :: rest => (string? rest).map fun (s, rest) => (.string s, rest)
    | 0x5B :: rest =>
      match skip rest with
      | 0x5D :: rest => some (.array [], rest)
      | rest => (items? fuel rest).map fun (xs, rest) => (.array xs, rest)
    | 0x7B :: rest =>
      match skip rest with
      | 0x7D :: rest => some (.object [], rest)
      | rest => (members? fuel rest).map fun (ms, rest) => (.object ms, rest)
    | rest => plain? rest

/-- The items of an array up to its closing bracket, and the rest. -/
def items? : Nat → Text → Option (List JsonValue × Text)
  | 0, _ => none
  | fuel + 1, t => do
    let (v, rest) ← value? fuel t
    match skip rest with
    | 0x2C :: rest =>
      let (vs, rest) ← items? fuel rest
      return (v :: vs, rest)
    | 0x5D :: rest => return ([v], rest)
    | _ => none

/-- The members of an object up to its closing brace, and the rest. -/
def members? : Nat → Text → Option (List (Text × JsonValue) × Text)
  | 0, _ => none
  | fuel + 1, t =>
    match skip t with
    | 0x22 :: rest => do
      let (name, rest) ← string? rest
      match skip rest with
      | 0x3A :: rest =>
        let (v, rest) ← value? fuel rest
        match skip rest with
        | 0x2C :: rest =>
          let (ms, rest) ← members? fuel rest
          return ((name, v) :: ms, rest)
        | 0x7D :: rest => return ([(name, v)], rest)
        | _ => none
      | _ => none
    | _ => none

end

/-- The value a text writes, if it writes one. Every nesting and every item takes a code unit, so
the fuel is never the reason for a refusal. -/
def parse? (t : Text) : Option JsonValue :=
  match value? (2 * t.length + 2) t with
  | some (v, rest) => if skip rest = [] then some v else none
  | none => none

end JsonValue

end ModalEditor
