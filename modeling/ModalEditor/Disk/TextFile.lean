import ModalEditor.Disk.Save
import ModalEditor.Text.Utf8

/-!
# Text files

A text is edited with line feeds between its lines, whatever breaks its file has; saving writes the
breaks in the style that most breaks of the file had. A carriage return that is no part of a break is
a character like any other. A file that does not exist is opened as an empty text.
-/

namespace ModalEditor

/-- How a file breaks lines. -/
inductive LineBreak where
  /-- A line feed. -/
  | lf
  /-- A carriage return and a line feed. -/
  | crlf
deriving DecidableEq, Repr

namespace LineBreak

/-- How many line feeds of a text come right after a carriage return. -/
def countCrlf : Text → Nat
  | u :: v :: rest =>
    if u = carriageReturn ∧ v = newline then countCrlf rest + 1 else countCrlf (v :: rest)
  | _ => 0

/-- The style of strictly more breaks; a tie goes to the line feed. -/
def dominant (t : Text) : LineBreak :=
  if t.count newline - countCrlf t < countCrlf t then .crlf else .lf

/-- Every break of a text as a line feed. -/
def unify : Text → Text
  | [] => []
  | [u] => [u]
  | u :: v :: rest =>
    if u = carriageReturn ∧ v = newline then newline :: unify rest else u :: unify (v :: rest)

/-- Every line feed of a text as a break of the style. -/
def restore : LineBreak → Text → Text
  | .lf, t => t
  | .crlf, t => t.flatMap fun u => if u = newline then [carriageReturn, newline] else [u]

/-- A break as it is written. -/
def toText : LineBreak → Text
  | .lf => [newline]
  | .crlf => [carriageReturn, newline]

end LineBreak

/-- A file opened for editing. -/
structure TextFile where
  text : Text
  lineBreak : LineBreak
  existed : Bool
deriving DecidableEq, Repr

namespace TextFile

/-- A file that is not there yet. -/
def empty : TextFile := ⟨[], .lf, false⟩

/-- The file whose content is given. -/
def ofContent (content : Text) : TextFile :=
  ⟨LineBreak.unify content, LineBreak.dominant content, true⟩

/-- The file at a path. -/
def load (d : Disk) (p : Path) : Except FileError TextFile :=
  if d.has p.onDisk then (d.read p.onDisk).map fun bytes => ofContent (Utf8.decode bytes)
  else .ok empty

/-- The bytes that a text is saved as. -/
def bytesOf (t : Text) (b : LineBreak) : List UInt8 := Utf8.encode (b.restore t)

/-- A text saved at a path; the disk, and what went wrong. -/
def saveWith (d : Disk) (m : Mishaps) (p : Path) (t : Text) (b : LineBreak) :
    Disk × Option FileError :=
  d.saveWith m p.onDisk (bytesOf t b)

/-- A text saved on a machine without mishaps. -/
def save (d : Disk) (p : Path) (t : Text) (b : LineBreak) : Disk × Option FileError :=
  saveWith d {} p t b

end TextFile

end ModalEditor
