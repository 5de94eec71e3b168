import ModalEditor.Text.Utf8

/-!
# Paths

A path is the list of names that lead from the root to a place; it is absolute and has no `.` or `..`
left. A written path separates names by slashes and is read against a working directory. A path that
is written with a slash at its end ends in an empty name: it is the same place, but only a directory
can lie there.
-/

namespace ModalEditor

/-- The names from the root to a place. -/
abbrev Path := List Text

namespace Path

/-- The separator of written paths. -/
def slash : CodeUnit := 47

/-- The dot of the names `.` and `..` and of hidden files. -/
def dot : CodeUnit := 46

/-- The names between slashes, without empty ones and without `.`. -/
def names (t : Text) : List Text := (t.splitOn slash).filter fun n => n ≠ [] ∧ n ≠ [dot]

/-- Names with every `..` and the name before it taken out. What leads above the root is dropped;
what leads above a relative beginning stays. The names already settled come last to first. -/
def settle (absolute : Bool) : List Text → List Text → List Text
  | done, [] => done.reverse
  | done, n :: rest =>
    if n = [dot, dot] then
      match done with
      | [] => settle absolute (if absolute then [] else [n]) rest
      | top :: done' => settle absolute (if top = [dot, dot] then n :: done else done') rest
    else settle absolute (n :: done) rest

/-- The written path begins at the root. -/
def isAbsolute (t : Text) : Bool := t.head? = some slash

/-- A written path read against a working directory. -/
def resolve (cwd : Path) (t : Text) : Path :=
  if isAbsolute t then settle true [] (names t) else settle true [] (cwd ++ names t)

/-- The place of a written path in a directory, wherever the path begins; a slash at the end stays. -/
def within (directory : Path) (t : Text) : Path :=
  settle true [] (directory ++ names t) ++ if t.getLast? = some slash then [[]] else []

/-- A path written out. -/
def toText (p : Path) : Text := if p = [] then [slash] else p.flatMap fun n => slash :: n

/-- The written path of a name in a directory, with nothing left to settle; it begins at the root if
the directory does. -/
def join (directory name : Text) : Text :=
  let parts := names directory ++ names name
  if isAbsolute directory then toText (settle true [] parts)
  else [slash].intercalate (settle false [] parts)

/-- The path was written with a slash at its end. -/
def endsInSlash (p : Path) : Bool := p.getLast? = some []

/-- The path without a slash at its end. -/
def trimmed (p : Path) : Path := if p.endsInSlash then p.dropLast else p

/-- The directory a path lies in; the root lies in itself. -/
def parent (p : Path) : Path := p.trimmed.dropLast

/-- The last name of a path. -/
def baseName (p : Path) : Text := p.trimmed.getLast?.getD []

/-- The path in the names a disk has: they are bytes, so that a lone surrogate is replaced. -/
def onDisk (p : Path) : Path := p.map fun n => Utf8.decode (Utf8.encode n)

/-! ## Limits -/

/-- A name of more bytes than a disk takes. -/
def isLongName (n : Text) : Bool := 255 < (Utf8.encode n).length

/-- A path of more bytes than a disk takes. -/
def isLong (p : Path) : Bool := 4095 < (Utf8.encode p.toText).length

/-- On the way there is a name that no disk takes: an empty one, or one with a null character. -/
def hasForbiddenName (p : Path) : Bool := p.trimmed.any fun n => n = [] || n.contains 0

/-- A path that ends in a name of its own has no slash to lose. -/
theorem trimmed_of_endsInSlash_eq_false {p : Path} (h : p.endsInSlash = false) : p.trimmed = p := by
  simp [trimmed, h]

end Path

end ModalEditor
