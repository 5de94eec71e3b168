import ModalEditor.Text.Basic

/-!
# Elements

What is drawn is a tree of boxes and runs of text with their properties. Text that stands side by side
is one text, and empty text is none.
-/

namespace ModalEditor

/-- The value of a property. -/
inductive PropValue where
  | flag (b : Bool)
  | number (n : Int)
  | word (w : String)
deriving DecidableEq, Repr

/-- A box or a run of text. -/
inductive Tag where
  | box
  | text
deriving DecidableEq, Repr

/-- A tree of boxes and texts. -/
inductive Element where
  | literal (t : Text)
  | node (tag : Tag) (props : List (String × PropValue)) (children : List Element)

namespace Element

/-- A text as children of a node: none if it is empty. -/
def ofText (t : Text) : List Element := if t = [] then [] else [.literal t]

/-- A box. -/
def box (props : List (String × PropValue)) (children : List Element) : Element :=
  .node .box props children

/-- A run of text that holds nothing but a text. -/
def label (props : List (String × PropValue)) (t : Text) : Element := .node .text props (ofText t)

mutual

/-- All text below a node, in order. -/
def plainText : Element → Text
  | .literal t => t
  | .node _ _ children => plainTextAll children

/-- All text below nodes, in order. -/
def plainTextAll : List Element → Text
  | [] => []
  | e :: rest => plainText e ++ plainTextAll rest

end

mutual

/-- The texts of the outermost runs of text, in order. -/
def runs : Element → List Text
  | .literal _ => []
  | .node .text _ children => [plainTextAll children]
  | .node .box _ children => runsAll children

/-- The texts of the outermost runs of text below nodes, in order. -/
def runsAll : List Element → List Text
  | [] => []
  | e :: rest => runs e ++ runsAll rest

end

/-- The children of a node. -/
def children : Element → List Element
  | .literal _ => []
  | .node _ _ children => children

end Element

end ModalEditor
