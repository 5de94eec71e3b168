import ModalEditor.Text.Case
import ModalEditor.Text.Class

/-!
# Key presses

A key press is the text the key produces, or the name of a key that produces none, with the
modifiers held down. A modifier the host does not report counts as not held. `KeyPress.base` reads a
capital letter as Shift and its small letter, as keyboards make them.
-/

namespace ModalEditor

/-- The keys that have a name instead of a text. -/
inductive NamedKey where
  | escape
  | enter
  | backspace
  | delete
  | tab
  | arrowLeft
  | arrowRight
  | arrowUp
  | arrowDown
  | home
  | endKey
  | pageUp
  | pageDown
deriving DecidableEq, Repr

namespace NamedKey

/-- Every named key. -/
def all : List NamedKey :=
  [.escape, .enter, .backspace, .delete, .tab, .arrowLeft, .arrowRight, .arrowUp, .arrowDown,
   .home, .endKey, .pageUp, .pageDown]

/-- The name by which hosts report the key. -/
def name : NamedKey → Text
  | .escape => Text.ofString "Escape"
  | .enter => Text.ofString "Enter"
  | .backspace => Text.ofString "Backspace"
  | .delete => Text.ofString "Delete"
  | .tab => Text.ofString "Tab"
  | .arrowLeft => Text.ofString "ArrowLeft"
  | .arrowRight => Text.ofString "ArrowRight"
  | .arrowUp => Text.ofString "ArrowUp"
  | .arrowDown => Text.ofString "ArrowDown"
  | .home => Text.ofString "Home"
  | .endKey => Text.ofString "End"
  | .pageUp => Text.ofString "PageUp"
  | .pageDown => Text.ofString "PageDown"

/-- The named key a text names, if it names one. -/
def ofText? (t : Text) : Option NamedKey := all.find? fun k => k.name = t

/-- Keys that move the cursor on their own, in every mode. -/
def isNavigation : NamedKey → Bool
  | .arrowLeft | .arrowRight | .arrowUp | .arrowDown | .home | .endKey | .pageUp | .pageDown => true
  | _ => false

end NamedKey

/-- A key and the modifiers reported with it. -/
structure KeyPress where
  key : Text
  ctrl : Option Bool := none
  shift : Option Bool := none
  alt : Option Bool := none
  metaKey : Option Bool := none
deriving DecidableEq, Repr

namespace KeyPress

/-- The named key pressed, if it is one. -/
def named? (k : KeyPress) : Option NamedKey := NamedKey.ofText? k.key

/-- Control is held. -/
def hasCtrl (k : KeyPress) : Bool := k.ctrl.getD false

/-- Shift is held. -/
def hasShift (k : KeyPress) : Bool := k.shift.getD false

/-- Control, Alt or Meta is held: the key is a chord and types nothing. -/
def isChord (k : KeyPress) : Bool := k.hasCtrl || k.alt.getD false || k.metaKey.getD false

/-- The key without Shift, and whether Shift applies. A capital letter counts as Shift and its small
letter even if Shift is not reported; anything but a single letter is taken as typed. -/
def base (k : KeyPress) : Text × Bool :=
  match k.key with
  | [u] =>
    if CodeUnit.isCased u then (CodeUnit.lower u, k.hasShift || k.key != CodeUnit.lower u)
    else (k.key, k.hasShift)
  | key => (key, k.hasShift)

/-- The key is one character, of one code unit or a surrogate pair, and no control character. -/
def isCharacter (k : KeyPress) : Bool :=
  match k.key with
  | [u] => !CodeUnit.isControl u
  | key => Text.isPair key

/-- The character typed, if the key is one and no chord. -/
def character? (k : KeyPress) : Option Text :=
  if k.isChord then none else if k.isCharacter then some k.key else none

/-- Only a key of one character has a character, and it is the key itself. -/
theorem character?_eq_some_iff {k : KeyPress} {t : Text} :
    k.character? = some t ↔ k.isChord = false ∧ k.isCharacter = true ∧ k.key = t := by
  unfold character?
  split <;> simp_all

end KeyPress

end ModalEditor
