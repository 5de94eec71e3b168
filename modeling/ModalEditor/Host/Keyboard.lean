import ModalEditor.Host.TerminalKey

/-!
# Keys out of what a terminal sends

A terminal sends the text of plain keys as it is, a control code for a letter with Control, and an
escape sequence for a key without a text. Text that is none of these is one input.
-/

namespace ModalEditor

namespace Keyboard

/-- The code that begins escape sequences, and Escape itself. -/
def escapeCode : CodeUnit := 0x1B

/-- The keys whose sequence is the escape code, a bracket and one letter. -/
def ofFinal? (u : CodeUnit) : Option TerminalKey :=
  if u = 0x41 then some { upArrow := true }
  else if u = 0x42 then some { downArrow := true }
  else if u = 0x43 then some { rightArrow := true }
  else if u = 0x44 then some { leftArrow := true }
  else none

/-- A control code: a key of its own, or a letter with Control. -/
def ofControl (u : CodeUnit) : Text × TerminalKey :=
  if u = newline ∨ u = carriageReturn then ([], { enter := true })
  else if u = tab then ([], { tab := true })
  else if u = 0x8 then ([], { backspace := true })
  else if u = 0x7F then ([], { delete := true })
  else if u = escapeCode then ([], { escape := true })
  else ([u + 0x60], { ctrl := some true })

/-- The inputs in what a terminal sends; `plain` is the text collected so far, last unit first. -/
def inputsFrom (plain : Text) : Text → List (Text × TerminalKey)
  | [] => if plain = [] then [] else [(plain.reverse, {})]
  | 0x1B :: 0x5B :: u :: rest =>
    (if plain = [] then [] else [(plain.reverse, {})]) ++
      match ofFinal? u with
      | some key => ([], key) :: inputsFrom [] rest
      | none => inputsFrom [] rest
  | u :: rest =>
    if CodeUnit.isControl u then
      (if plain = [] then [] else [(plain.reverse, {})]) ++ ofControl u :: inputsFrom [] rest
    else inputsFrom (u :: plain) rest

/-- The inputs in what a terminal sends. -/
def inputs (t : Text) : List (Text × TerminalKey) := inputsFrom [] t

end Keyboard

end ModalEditor
