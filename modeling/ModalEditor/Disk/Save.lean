import ModalEditor.Disk.Basic

/-!
# Saving all or nothing

A file is saved by writing a temporary file beside it and moving that into its place; missing
directories are made first. When a step fails, the temporary file is taken away again. `Mishaps` says
which steps fail for reasons of the machine, so that a save can be followed through every failure.
-/

namespace ModalEditor

/-- Steps that fail although the disk would allow them: making directories after the first few are
made, opening the temporary file, writing after the first few bytes are written, and moving the
file. -/
structure Mishaps where
  makingDirectories : Option (Nat × FileError) := none
  opening : Option FileError := none
  writing : Option (Nat × FileError) := none
  moving : Option FileError := none
deriving DecidableEq, Repr

namespace Disk

/-- The temporary file a path is saved through: hidden, in the same directory. -/
def temporary (p : Path) : Path :=
  Path.parent p ++ [Path.dot :: Path.baseName p ++ Text.ofString ".tmp"]

/-- Directories made one after the other, up to the first whose name is too long or to a mishap; the
disk, and what went wrong. -/
def tryMakeDirectories (d : Disk) (m : Mishaps) (p : Path) : Disk × Option FileError :=
  match p.fault?, d.missing [] p with
  | some e, _ | none, .error e => (d, some e)
  | none, .ok ps =>
    let fitting := ps.takeWhile fun q => !Path.isLongName q.baseName
    match m.makingDirectories with
    | some (n, e) => (d.makeAll (fitting.take n), some e)
    | none => (d.makeAll fitting, if fitting.length < ps.length then some .nameTooLong else none)

/-- A file written, or part of it before a mishap, or nothing if it cannot be opened; the disk, and
what went wrong. -/
def tryWrite (d : Disk) (m : Mishaps) (p : Path) (bytes : List UInt8) : Disk × Option FileError :=
  match m.opening, m.writing with
  | some e, _ => (d, some e)
  | none, none =>
    match d.write p bytes with
    | .ok d => (d, none)
    | .error e => (d, some e)
  | none, some (n, e) =>
    match d.write p (bytes.take n) with
    | .ok d => (d, some e)
    | .error e => (d, some e)

/-- A file moved, unless there is a mishap; the disk, and what went wrong. -/
def tryRename (d : Disk) (m : Mishaps) (source target : Path) : Disk × Option FileError :=
  match m.moving with
  | some e => (d, some e)
  | none =>
    match d.rename source target with
    | .ok d => (d, none)
    | .error e => (d, some e)

/-- The temporary file taken away after a failure, if there is one; the error that is reported. -/
def cleanUp (d : Disk) (temp : Path) (e : FileError) : Disk × Option FileError :=
  if d.has temp then
    match d.remove temp with
    | .ok d => (d, some e)
    | .error e => (d, some e)
  else (d, some e)

/-- The steps of a save up to the first failure. -/
def saveSteps (d : Disk) (m : Mishaps) (p : Path) (bytes : List UInt8) : Disk × Option FileError :=
  let made := if d.has (Path.parent p) then (d, none) else d.tryMakeDirectories m (Path.parent p)
  match made with
  | (d, some e) => (d, some e)
  | (d, none) =>
    match d.tryWrite m (temporary p) bytes with
    | (d, some e) => (d, some e)
    | (d, none) => d.tryRename m (temporary p) p

/-- A file saved; the disk, and what went wrong. -/
def saveWith (d : Disk) (m : Mishaps) (p : Path) (bytes : List UInt8) : Disk × Option FileError :=
  match d.saveSteps m p bytes with
  | (d, some e) => d.cleanUp (temporary p) e
  | (d, none) => (d, none)

/-- A file saved on a machine without mishaps. -/
def save (d : Disk) (p : Path) (bytes : List UInt8) : Disk × Option FileError := d.saveWith {} p bytes

end Disk

end ModalEditor
