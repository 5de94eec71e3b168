import ModalEditor.Host.Keyboard
import ModalEditor.Host.Startup

/-!
# The program

`main` reads the files that matter, runs the editor on what the terminal sends, and writes back the
files that have changed. Everything that is decided, is decided in the modules this one imports.
-/

namespace ModalEditor

namespace Program

/-- A text as a character string; what is no character is shown as the replacement character. -/
def visible (t : Text) : String := (Utf8.decode (Utf8.encode t)).toString?.getD ""

/-- What lies at a path on the machine. -/
def probe (p : Path) : IO (Option Entry) := do
  let place := (← IO.currentDir) / visible (Path.toText p)
  if ← place.isDir then return some .directory
  else if ← place.pathExists then return some (.file (← IO.FS.readBinFile place).toList)
  else return none

/-- A path, with the paths on the way to it. -/
def andAbove (p : Path) : List Path := (List.range (p.length + 1)).map fun n => p.take n

/-- The part of the machine's files that lies at the paths given and on the way to them. -/
def readDisk (ps : List Path) : IO Disk := do
  let mut d : Disk := {}
  for p in (ps.flatMap andAbove).eraseDups do
    if let some e ← probe p then d := d.put p.onDisk e
  return d

/-- The files that are new or different written to the machine. -/
def writeDisk (before after : Disk) : IO Unit := do
  for (p, e) in after.entries.reverse do
    unless before.lookup? p = some e do
      let name := visible (Path.toText p)
      match e with
      | .directory => IO.FS.createDirAll name
      | .file bytes => IO.FS.writeBinFile name ⟨bytes.toArray⟩

/-- Lines written to the log. -/
def writeLogs (lines : List LogLine) : IO Unit := do
  for l in lines do
    let line := " ".intercalate (l.parts.map visible)
    match l.level with
    | .log => IO.println line
    | _ => IO.eprintln line

/-- Texts written to the terminal. -/
def writeTexts (ts : List Text) : IO Unit := do
  let out ← IO.getStdout
  for t in ts do out.putStr (visible t)
  out.flush

/-- The screen drawn line by line. -/
def draw (e : Editor) : IO Unit := do
  let rows := e.window.children.map Element.plainText
  let status := (e.status.render.runs.map visible).map fun run => run ++ "  "
  writeTexts [Editor.clearScreen]
  for row in rows do IO.println (visible row)
  IO.println (String.join status)
  IO.println (visible e.help)

/-- One event: what it writes, logs and saves goes to the machine. -/
def advance (e : Editor) (event : Event) : IO Editor := do
  let next := { e with logs := [], writes := [] }.step event
  writeTexts next.writes
  writeLogs next.logs
  writeDisk e.disk next.disk
  return next

/-- Inputs one after the other, until one of them leaves the editor. -/
def feed (e : Editor) : List (Text × TerminalKey) → IO Editor
  | [] => return e
  | (text, key) :: rest => do
    let e ← advance e (.input text key)
    if e.exits = 0 then feed e rest else return e

/-- The editor run until it is left or nothing more is sent. -/
partial def loop (e : Editor) (clock : Nat) : IO Editor := do
  draw e
  let bytes ← (← IO.getStdin).read 4096
  let now ← IO.monoMsNow
  let e ← advance e (.tick (now - clock : Nat))
  if bytes.isEmpty then return e
  let e ← feed e (Keyboard.inputs (Utf8.decode bytes.toList))
  if e.exits = 0 then loop e now else return e

/-- The editor started, run and put away. -/
def edit (l : Launch) (disk : Disk) : IO Unit := do
  writeTexts Startup.enter
  let e := Editor.mount l.desk l.filePath l.lineBreak l.settingsPath l.settings 0 0 disk
  let e ← loop e (← IO.monoMsNow)
  let _ ← advance e .unmount
  writeTexts Startup.leave

/-- The program run with arguments; its exit code. -/
def run (args : List Text) : IO Nat := do
  let cwd := Path.resolve [] (Text.ofString (← IO.currentDir).toString)
  let home := Text.ofString ((← IO.getEnv "HOME").getD "/")
  let config := (← IO.getEnv "MODAL_EDIT_CONFIG").map Text.ofString
  let named := (args.take 1).map (Path.resolve cwd)
  let disk ← readDisk (cwd :: Path.resolve cwd (Settings.locate cwd home config) :: named)
  let s := Startup.run { cwd, home, config, disk } args
  writeLogs s.logs
  if let some l := s.launch then edit l disk
  return s.exitCode

end Program

end ModalEditor

/-- The editor on the file named by the first argument. -/
def main (args : List String) : IO UInt32 := do
  return (← ModalEditor.Program.run (args.map ModalEditor.Text.ofString)).toUInt32
