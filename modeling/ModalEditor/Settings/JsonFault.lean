import ModalEditor.Settings.Json

/-!
# Faults of a JSON text

What the runtime's own JSON reader says of a text that is not JSON and goes wrong at a known offset. No
part of the editor says it: settings that are not JSON are logged by the kind of the fault alone
(`Settings.ofContent`). It is for those who send the editor's parts JSON to work on, and are told what
is wrong with it. Of a long text only the surroundings of the fault are shown, with dots for what is
left out.
-/

namespace ModalEditor

namespace JsonValue

/-- How much of a text is shown on each side of a fault. -/
def faultMargin : Nat := 10

/-- The text around an offset, quoted, with dots where something is left out. -/
def excerpt (source : Text) (offset : Nat) : Text :=
  let quote : Text := [0x22]
  let dots (needed : Bool) : Text := if needed then Text.ofString "..." else []
  if source.length ≤ 2 * faultMargin then quote ++ source ++ quote
  else
    dots (faultMargin ≤ offset) ++ quote ++
      (source.take (offset + faultMargin)).drop (offset - faultMargin) ++ quote ++
      dots (offset + faultMargin < source.length)

/-- The fault of a code unit that begins nothing. -/
def unexpectedAt (source : Text) (offset : Nat) : Text :=
  Text.ofString "Unexpected token '" ++ (source.drop offset).take 1 ++ Text.ofString "', " ++
    excerpt source offset ++ Text.ofString " is not valid JSON"

/-- The fault of a minus sign without a number, on a text of one line. -/
def unsignedAt (offset : Nat) : Text :=
  Text.ofString "No number after minus sign in JSON at position " ++ Text.ofNat offset ++
    Text.ofString " (line 1 column " ++ Text.ofNat (offset + 1) ++ Text.ofString ")"

/-- What is said of a text of one line that goes wrong at an offset. -/
def faultAt (source : Text) (offset : Nat) : Text :=
  if (source.take offset).getLast? = some 0x2D then unsignedAt offset else unexpectedAt source offset

end JsonValue

end ModalEditor
