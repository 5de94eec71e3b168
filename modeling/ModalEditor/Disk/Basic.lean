import ModalEditor.Disk.Path

/-!
# Disks

A disk is what lies at each path: nothing, a regular file with its bytes, or a directory; links are
left out. The root is always a directory. A path is reached only through directories, so a file on the
way stops the walk (`Disk.stat`), and so does a name that is too long. Operations fail for the causes
in `FileError`, and leave the disk alone when they do.
-/

namespace ModalEditor

/-- Why an operation on files fails. -/
inductive FileError where
  | notFound
  | notDirectory
  | isDirectory
  | exists
  | accessDenied
  | noSpace
  | nameTooLong
  | invalidName
deriving DecidableEq, Repr

/-- The short name of an error. -/
def FileError.code : FileError → Text
  | .notFound => Text.ofString "ENOENT"
  | .notDirectory => Text.ofString "ENOTDIR"
  | .isDirectory => Text.ofString "EISDIR"
  | .exists => Text.ofString "EEXIST"
  | .accessDenied => Text.ofString "EACCES"
  | .noSpace => Text.ofString "ENOSPC"
  | .nameTooLong => Text.ofString "ENAMETOOLONG"
  | .invalidName => Text.ofString "ERR_INVALID_ARG_VALUE"

/-- Why a path cannot be asked about, whatever lies on the disk. -/
def Path.fault? (p : Path) : Option FileError :=
  if p.hasForbiddenName then some .invalidName else if p.isLong then some .nameTooLong else none

/-- What may lie at a path: a regular file or a directory, and no link. -/
inductive Entry where
  | file (bytes : List UInt8)
  | directory
deriving DecidableEq, Repr

/-- What lies at which path, the root left out. -/
structure Disk where
  entries : List (Path × Entry) := []
deriving DecidableEq, Repr

namespace Disk

/-! ## Looking -/

/-- What is kept at a path, whether or not it can be reached. -/
def lookup? (d : Disk) (p : Path) : Option Entry :=
  if p = [] then some .directory else (d.entries.find? fun q => q.1 = p).map Prod.snd

/-- The walk from a place along names: what lies at the end. An empty name stays in the directory. -/
def walk (d : Disk) (place : Path) : List Text → Except FileError Entry
  | [] =>
    match d.lookup? place with
    | some e => .ok e
    | none => .error .notFound
  | n :: rest =>
    match d.lookup? place with
    | some .directory =>
      if n = [] then walk d place rest
      else if Path.isLongName n then .error .nameTooLong
      else walk d (place ++ [n]) rest
    | some (.file _) => .error .notDirectory
    | none => .error .notFound

/-- What lies at a path, reached from the root. -/
def stat (d : Disk) (p : Path) : Except FileError Entry :=
  match p.fault? with
  | some e => .error e
  | none => d.walk [] p

/-- Something lies at the path. -/
def has (d : Disk) (p : Path) : Bool := (d.stat p).isOk

/-- The bytes of a file. -/
def read (d : Disk) (p : Path) : Except FileError (List UInt8) :=
  match d.stat p with
  | .ok (.file bytes) => .ok bytes
  | .ok .directory => .error .isDirectory
  | .error e => .error e

/-- The names in a directory. -/
def names (d : Disk) (p : Path) : List Text :=
  d.entries.filterMap fun (q, _) =>
    if q ≠ [] ∧ Path.parent q = p.trimmed then some (Path.baseName q) else none

/-! ## Changing -/

/-- An entry put at a path, in place of what was there. -/
def put (d : Disk) (p : Path) (e : Entry) : Disk :=
  ⟨(p, e) :: d.entries.filter fun q => q.1 ≠ p⟩

/-- Whatever is at a path taken away. -/
def drop (d : Disk) (p : Path) : Disk := ⟨d.entries.filter fun q => q.1 ≠ p⟩

/-- What an entry at a path needs: the directory has to be there, and the name must not be too long. -/
def openParent (d : Disk) (p : Path) : Except FileError Unit :=
  match p.fault? with
  | some e => .error e
  | none =>
    match d.stat p.parent with
    | .ok .directory => if Path.isLongName p.baseName then .error .nameTooLong else .ok ()
    | .ok (.file _) => .error .notDirectory
    | .error e => .error e

/-- A file written in full. -/
def write (d : Disk) (p : Path) (bytes : List UInt8) : Except FileError Disk := do
  d.openParent p
  if p.endsInSlash then throw .isDirectory
  match d.lookup? p with
  | some .directory => .error .isDirectory
  | _ => .ok (d.put p (.file bytes))

/-- A file moved to another path, in place of the file there. -/
def rename (d : Disk) (source target : Path) : Except FileError Disk := do
  let e ← d.stat source
  d.openParent target
  if target.endsInSlash then throw .notDirectory
  match d.lookup? target with
  | some .directory => .error .isDirectory
  | _ => .ok ((d.drop source).put target e)

/-- A file taken away. -/
def remove (d : Disk) (p : Path) : Except FileError Disk :=
  match d.stat p with
  | .ok (.file _) => .ok (d.drop p)
  | .ok .directory => .error .isDirectory
  | .error e => .error e

/-- The directories still to be made for a walk along names, nearest to the root first. -/
def missing (d : Disk) (place : Path) : List Text → Except FileError (List Path)
  | [] =>
    match d.lookup? place with
    | some .directory => .ok []
    | some (.file _) => .error .exists
    | none => .ok [place]
  | n :: rest =>
    match d.lookup? place with
    | some .directory => missing d (place ++ [n]) rest
    | some (.file _) => .error .notDirectory
    | none => (missing d (place ++ [n]) rest).map (place :: ·)

/-- Directories made one after the other. -/
def makeAll (d : Disk) (ps : List Path) : Disk := ps.foldl (fun d p => d.put p .directory) d

/-- A directory made, with those on the way to it. -/
def makeDirectories (d : Disk) (p : Path) : Except FileError Disk := do
  return d.makeAll (← d.missing [] p.trimmed)

/-- Everything at and below a path taken away. -/
def removeTree (d : Disk) (p : Path) : Disk := ⟨d.entries.filter fun q => !(p.trimmed.isPrefixOf q.1)⟩

/-! ## Laws -/

theorem lookup?_put_self {d : Disk} {p : Path} {e : Entry} (h : p ≠ []) :
    (d.put p e).lookup? p = some e := by
  simp [lookup?, put, h]

theorem lookup?_put_of_ne {d : Disk} {p q : Path} {e : Entry} (h : q ≠ p) :
    (d.put p e).lookup? q = d.lookup? q := by
  unfold lookup? put
  split
  · rfl
  · have hq : ∀ r : Path × Entry, (r.1 ≠ p ∧ r.1 = q) = (r.1 = q) := fun r =>
      propext ⟨And.right, fun hr => ⟨hr ▸ h, hr⟩⟩
    simp only [List.find?_cons, List.find?_filter, decide_eq_false (Ne.symm h), decide_eq_true_eq, hq]

end Disk

end ModalEditor
