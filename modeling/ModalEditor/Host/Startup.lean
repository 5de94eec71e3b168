import ModalEditor.Host.Editor

/-!
# Starting up

The command line names a file or asks for help. The settings are read first, then the file; a file
that cannot be opened ends the program before anything is drawn. While the editor runs it has the
terminal's other screen and hides the terminal's own cursor.
-/

namespace ModalEditor

/-- Where the program runs. -/
structure Environment where
  cwd : Path
  home : Text
  /-- The settings file asked for. -/
  config : Option Text
  disk : Disk

/-- What the editor is started with. -/
structure Launch where
  desk : Desk
  filePath : Option Path
  lineBreak : LineBreak
  settings : Settings
  settingsPath : Path

/-- What starting came to. -/
structure Startup where
  exitCode : Nat
  logs : List LogLine
  launch : Option Launch

namespace Startup

/-- How the program is used. -/
def usage : LogLine := ⟨.log, [Text.ofString "Usage: modal-edit [file]"]⟩

/-- The first argument asks for help. -/
def asksHelp (args : List Text) : Bool :=
  args.head?.any fun a => a = Text.ofString "--help" ∨ a = Text.ofString "-h"

/-- The file named by the first argument, if it names one. -/
def filePath? (env : Environment) (args : List Text) : Option Path :=
  match args with
  | (u :: name) :: _ => some (Path.resolve env.cwd (u :: name))
  | _ => none

/-- The desk for a text under settings. -/
def deskOf (text : Text) (s : Settings) : Desk where
  vi := .new s.viMode s.blockCursor s.autoIndent s.lineStartOnQ 20
  register := []
  buffer := .ofText text 20 100

/-- The line logged when a file is opened or begun. -/
def opening (p : Path) (file : TextFile) : LogLine :=
  ⟨.log, [Text.ofString (if file.existed then "Opening: " else "New file: ") ++ p.toText]⟩

/-- The start with a file, or without one. -/
def launchOf (filePath : Option Path) (file : TextFile) (settings : Settings) (settingsPath : Path) :
    Launch where
  desk := deskOf file.text settings
  filePath := filePath
  lineBreak := file.lineBreak
  settings := settings
  settingsPath := settingsPath

/-- The program started with arguments. -/
def run (env : Environment) (args : List Text) : Startup :=
  if asksHelp args then { exitCode := 0, logs := [usage], launch := none }
  else
    let settingsPath := Path.resolve env.cwd
      (Settings.locate env.cwd env.home (env.config.map Settings.variableOf))
    let (settings, logs) := Settings.load env.disk settingsPath
    match filePath? env args with
    | none => { exitCode := 0, logs, launch := some (launchOf none .empty settings settingsPath) }
    | some p =>
      match TextFile.load env.disk p with
      | .error cause =>
        { exitCode := 1
          logs := logs ++ [⟨.error, [Text.ofString "Failed to open file: " ++ p.toText, cause.code]⟩]
          launch := none }
      | .ok file =>
        { exitCode := 0
          logs := logs ++ [opening p file]
          launch := some (launchOf (some p) file settings settingsPath) }

/-- What is logged when the editor breaks down. -/
def crashed (cause : Text) : LogLine := ⟨.error, [Text.ofString "Editor crashed:", cause]⟩

/-- The start of a program whose editor broke down, for the cause given. -/
def crash (s : Startup) (cause : Text) : Startup :=
  if s.launch.isSome then { s with exitCode := 1, logs := s.logs ++ [crashed cause] } else s

/-- What is written to the terminal before the editor runs. -/
def enter : List Text := [Text.ofString "\x1b[?1049h", Text.ofString "\x1b[?25l"]

/-- What is written to the terminal after the editor has run. -/
def leave : List Text := [Text.ofString "\x1b[?25h", Text.ofString "\x1b[?1049l"]

/-- All that is written to the terminal around the editor. -/
def writes (s : Startup) : List Text := if s.launch.isSome then enter ++ leave else []

end Startup

end ModalEditor
