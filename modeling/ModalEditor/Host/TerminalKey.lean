import ModalEditor.Key.Basic

/-!
# Keys as a terminal reports them

A terminal reports the text of a key together with flags, of which more than one may be set. A bare
Escape comes with the Meta flag, which is therefore dropped, and the key above Enter reports itself as
Delete on most terminals.
-/

namespace ModalEditor

/-- The flags reported with a key. -/
structure TerminalKey where
  upArrow : Bool := false
  downArrow : Bool := false
  leftArrow : Bool := false
  rightArrow : Bool := false
  pageUp : Bool := false
  pageDown : Bool := false
  enter : Bool := false
  escape : Bool := false
  tab : Bool := false
  backspace : Bool := false
  delete : Bool := false
  ctrl : Option Bool := none
  shift : Option Bool := none
  metaKey : Option Bool := none
deriving DecidableEq, Repr

namespace TerminalKey

/-- The named key of the first flag that is set. -/
def named? (f : TerminalKey) : Option NamedKey :=
  if f.enter then some .enter
  else if f.backspace || f.delete then some .backspace
  else if f.tab then some .tab
  else if f.leftArrow then some .arrowLeft
  else if f.rightArrow then some .arrowRight
  else if f.upArrow then some .arrowUp
  else if f.downArrow then some .arrowDown
  else if f.pageUp then some .pageUp
  else if f.pageDown then some .pageDown
  else none

/-- The key press that a terminal reports. -/
def toKeyPress (f : TerminalKey) (input : Text) : KeyPress :=
  if f.escape then
    { key := NamedKey.escape.name, ctrl := f.ctrl, shift := f.shift, metaKey := some false }
  else
    { key := f.named?.elim input NamedKey.name, ctrl := f.ctrl, shift := f.shift, metaKey := f.metaKey }

end TerminalKey

end ModalEditor
