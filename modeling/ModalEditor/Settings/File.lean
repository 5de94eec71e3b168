import ModalEditor.Disk.Save
import ModalEditor.Settings.Basic
import ModalEditor.Text.Utf8

/-!
# The settings file

Settings are kept in a file of their own. Reading never fails: a file that is missing, unreadable or
malformed stands for the default settings, and what was wrong goes to the log. Saving is all or
nothing.
-/

namespace ModalEditor

/-- How serious a log line is. -/
inductive LogLevel where
  | log
  | warn
  | error
deriving DecidableEq, Repr

/-- A line of the log, in parts. -/
structure LogLine where
  level : LogLevel
  parts : List Text
deriving DecidableEq, Repr

namespace Settings

/-- The name of the settings file in the home directory. -/
def fileName : Text := Text.ofString ".modal-edit.json"

/-- What a variable of the environment holds when it is set to a text: bytes, up to a null. -/
def variableOf (t : Text) : Text := Utf8.decode (Utf8.encode (t.takeWhile (· ≠ 0)))

/-- Where the settings are: at the place named, unless the name is empty, or in the home directory,
of which a variable tells. -/
def locate (cwd : Path) (home : Text) (named : Option Text) : Text :=
  match named with
  | some (u :: t) => (Path.resolve cwd (u :: t)).toText
  | _ => Path.join (variableOf home) fileName

/-- The line logged when settings cannot be read. -/
def loadFailure (cause : Text) : LogLine := ⟨.error, [Text.ofString "Failed to load settings:", cause]⟩

/-- The settings a content holds, and what is logged about it. -/
def ofContent (content : Text) (p : Path) : Settings × List LogLine :=
  match JsonValue.parse? content with
  | none => ({}, [loadFailure (Text.ofString "SyntaxError")])
  | some v =>
    if isStored v then (ofStored v, [])
    else
      ({}, [⟨.warn, [Text.ofString "Invalid settings file format, using defaults: " ++ p.toText]⟩])

/-- The settings at a path, and what is logged about them. -/
def load (d : Disk) (p : Path) : Settings × List LogLine :=
  if d.has p.onDisk then
    match d.read p.onDisk with
    | .error e => ({}, [loadFailure e.code])
    | .ok bytes => ofContent (Utf8.decode bytes) p
  else ({}, [])

/-- The flags of an object saved at a path; the disk, and what went wrong. -/
def saveObject (d : Disk) (m : Mishaps) (p : Path) (v : JsonValue) : Disk × Option FileError :=
  d.saveWith m p.onDisk (Utf8.encode (stored v).toText)

/-- Settings saved at a path, as the object of their flags. -/
def saveWith (d : Disk) (m : Mishaps) (p : Path) (s : Settings) : Disk × Option FileError :=
  saveObject d m p (.object s.toMembers)

/-- What an update comes to: the disk, what was logged, and the new value or what went wrong. -/
structure Update (α : Type) where
  disk : Disk
  logs : List LogLine
  outcome : Except FileError α

/-- What an update comes to when the new value is saved. -/
def Update.of {α : Type} (logs : List LogLine) (next : α) (saved : Disk × Option FileError) :
    Update α where
  disk := saved.1
  logs := logs
  outcome := saved.2.elim (.ok next) .error

/-- The stored settings changed and saved again. -/
def updateWith (d : Disk) (m : Mishaps) (p : Path) (c : SettingsChange) : Update Settings :=
  let (stored, logs) := load d p
  let next := stored.apply c
  .of logs next (saveWith d m p next)

/-- The members of the stored settings followed by others, which override and extend them; their
flags are saved again. -/
def updateObject (d : Disk) (m : Mishaps) (p : Path) (members : List (Text × JsonValue)) :
    Update JsonValue :=
  let (stored, logs) := load d p
  let next := .object (stored.toMembers ++ members)
  .of logs next (saveObject d m p next)

/-! ## Laws -/

theorem saveWith_eq (d : Disk) (m : Mishaps) (p : Path) (s : Settings) :
    saveWith d m p s = d.saveWith m p.onDisk (Utf8.encode s.toText) := rfl

/-- Settings and a change saved as members of one object are saved as the changed settings. -/
theorem saveObject_append (d : Disk) (m : Mishaps) (p : Path) (s : Settings) (c : SettingsChange) :
    saveObject d m p (.object (s.toMembers ++ changeMembers c)) = saveWith d m p (s.apply c) := by
  rw [saveWith_eq, toText, ← stored_append]
  rfl

end Settings

end ModalEditor
