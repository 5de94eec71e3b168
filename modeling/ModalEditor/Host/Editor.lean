import ModalEditor.Disk.TextFile
import ModalEditor.Host.Binding
import ModalEditor.Host.Debounce
import ModalEditor.Host.TerminalKey
import ModalEditor.Settings.File
import ModalEditor.View.StatusLine
import ModalEditor.View.Window

/-!
# The editor

The editor is a binding in a terminal: it has keys of its own for saving, undo and settings, saves by
itself when nothing has been typed for a while, and scrolls to keep the cursor in sight.
`Editor.step` answers one event from outside. After each event the editor settles: it scrolls, takes
over the height of the terminal as the height of a page, and lets the debounce look.
-/

namespace ModalEditor

/-- The editor and the terminal and disk it lives on. -/
structure Editor where
  binding : Binding
  filePath : Option Path
  lineBreak : LineBreak
  settingsPath : Path
  settings : Settings
  width : Int
  height : Int
  disk : Disk
  mishaps : Mishaps := {}
  message : Option Text := none
  top : Int := 0
  autoSave : Debounce := {}
  mounted : Bool := true
  exits : Nat := 0
  logs : List LogLine := []
  writes : List Text := []

/-- What can happen to an editor from outside. -/
inductive Event where
  | input (text : Text) (key : TerminalKey)
  | tick (ms : Int)
  | resize (width height : Int)
  /-- Others change files. -/
  | disk (disk : Disk)
  /-- From now on saving goes wrong in this way. -/
  | mishaps (m : Mishaps)
  | unmount

namespace Editor

/-- The lines below the text: the status line and the help line. -/
def chromeHeight : Int := 2

/-- The lines of text shown. -/
def textHeight (e : Editor) : Int := max 1 (e.height - chromeHeight)

/-- The buffer edited. -/
def buffer (e : Editor) : Buffer := e.binding.desk.buffer

/-- The interpreter and the buffer moved on. -/
def setDesk (e : Editor) (d : Desk) : Editor := { e with binding := e.binding.update d }

/-- The buffer moved on. -/
def setBuffer (e : Editor) (b : Buffer) : Editor := e.setDesk { e.binding.desk with buffer := b }

/-- A message for the status line. -/
def say (e : Editor) (t : Text) : Editor := { e with message := some t }

/-- Lines for the log. -/
def addLogs (e : Editor) (lines : List LogLine) : Editor := { e with logs := e.logs ++ lines }

/-! ## Saving -/

/-- The buffer saved to its file; whether that went well. -/
def save (e : Editor) : Editor × Bool :=
  match e.filePath with
  | none => (e.say (Text.ofString "No file name"), false)
  | some p =>
    match TextFile.saveWith e.disk e.mishaps p e.buffer.text e.lineBreak with
    | (disk, none) => ({ e with disk }.setBuffer e.buffer.markSaved, true)
    | (disk, some cause) =>
      (({ e with disk }.addLogs [⟨.error, [Text.ofString "Failed to save file:", cause.code]⟩]).say
        (Text.ofString "Save failed: " ++ cause.code), false)

/-- A change of the settings, stored if that is possible and in force in any case. -/
def persist (e : Editor) (c : SettingsChange) : Editor :=
  let u := Settings.updateWith e.disk e.mishaps e.settingsPath c
  let e := { e with disk := u.disk }.addLogs u.logs
  match u.outcome with
  | .ok settings => { e with settings }
  | .error cause =>
    { e with settings := e.settings.apply c }.addLogs
      [⟨.error, [Text.ofString "Failed to save settings:", cause.code]⟩]

/-! ## Keys of the editor's own -/

/-- Undo or redo, with the cursor where the step began and a message that names it. -/
def travel (e : Editor) (label : Text) (description : Option Text) (outcome : Buffer × Option Int) :
    Editor :=
  match outcome with
  | (b, some o) => (e.setBuffer (b.setCursor (.collapsed o))).say (label ++ description.getD [])
  | (b, none) => e.setBuffer b

/-- The interpreter turned on or off. -/
def toggleVi (e : Editor) : Editor :=
  let viMode := !e.binding.desk.vi.enabled
  let d := e.binding.desk
  let e := (e.setDesk { d with vi := d.vi.setEnabled viMode }).persist { viMode := some viMode }
  e.say (if viMode then Text.ofString "Vi mode on" else Text.ofString "Vi mode off")

/-- The block cursor turned on or off. -/
def toggleBlockCursor (e : Editor) : Editor :=
  let blockCursor := !e.settings.blockCursor
  let d := e.binding.desk
  (e.setDesk { d with vi := d.vi.setBlockCursor blockCursor }).persist
    { blockCursor := some blockCursor }

/-- The editor left, after saving what is not saved yet. -/
def quit (e : Editor) : Editor :=
  let e := if e.filePath.isSome && e.buffer.isModified then e.save.1 else e
  { e with exits := e.exits + 1 }

/-- The text of a key in small letters. -/
def smallLetters (k : KeyPress) : Text := k.key.flatMap CodeUnit.lower

/-- The small letter of a key that is one. -/
def letter? (k : KeyPress) : Option Char :=
  match smallLetters k with
  | [u] => some (Char.ofNat u.toNat)
  | _ => none

/-- A key that nothing else took: the letters that mean something with Control. -/
def hostKey (e : Editor) (k : KeyPress) : Editor :=
  if !k.hasCtrl then e
  else match letter? k with
    | some 's' =>
      match e.save with
      | (e, true) => e.say (Text.ofString "Saved")
      | (e, false) => e
    | some 'q' => e.quit
    | some 'z' => e.travel (Text.ofString "Undo: ") e.buffer.history.undoDescription? e.buffer.undo
    | some 'r' => e.travel (Text.ofString "Redo: ") e.buffer.history.redoDescription? e.buffer.redo
    | some 'd' => e.setDesk (e.binding.desk.scroll .down)
    | some 'u' => e.setDesk (e.binding.desk.scroll .up)
    | some 't' => e.toggleVi
    | some 'b' => e.toggleBlockCursor
    | _ => e

/-- One key pressed. The message goes; the interpreter and plain typing come before the editor's own
keys. -/
def press (e : Editor) (k : KeyPress) : Editor :=
  let e := { e with message := none }
  match e.binding.press (some fun _ => true) k with
  | .error _ => e
  | .ok (binding, outcome) =>
    let e := { e with binding }
    if outcome.offered then e.hostKey k else e

/-! ## Settling -/

/-- The line of the cursor. -/
def cursorLine (e : Editor) : Int := e.buffer.text.lineAt e.buffer.cursor.position

/-- Scrolled to the cursor. -/
def scroll (e : Editor) : Editor :=
  { e with top := Window.follow e.top e.cursorLine e.textHeight }

/-- The height of a page taken over from the terminal. -/
def takeHeight (e : Editor) : Editor :=
  let d := e.binding.desk
  { e with
    binding := { e.binding with
      desk := { d with buffer := d.buffer.setPageLines (.ofInt e.textHeight) } } }

/-- What the debounce looks at: it is on while there is something to save and a file to save it to. -/
def watched (e : Editor) : Watched where
  version := e.binding.shown.version
  enabled := e.filePath.isSome && e.buffer.isModified
  delay := Debounce.defaultDelay

/-- Scrolled, at the terminal's height, with the debounce up to date. -/
def settle (e : Editor) : Editor :=
  let e := e.scroll.takeHeight
  { e with autoSave := e.autoSave.look e.watched }

/-! ## Events -/

/-- What clears the terminal. -/
def clearScreen : Text := Text.ofString "\x1b[2J\x1b[H"

/-- A pending save made when the editor is put away. -/
def unmount (e : Editor) : Editor :=
  let (autoSave, due) := e.autoSave.flush
  let e := { e with autoSave }
  let e := if due then e.save.1 else e
  { e with mounted := false }

/-- Time passes; a save that comes due is made. -/
def tick (e : Editor) (ms : Int) : Editor :=
  let (autoSave, due) := e.autoSave.advance ms
  let e := { e with autoSave }
  if due then e.save.1 else e

/-- One event, while the editor is mounted, before it settles. -/
def react (e : Editor) : Event → Editor
  | .input text key => e.press (key.toKeyPress text)
  | .tick ms => e.tick ms
  | .resize width height => { e with width, height, writes := e.writes ++ [clearScreen] }
  | .disk disk => { e with disk }
  | .mishaps m => { e with mishaps := m }
  | .unmount => e.unmount

/-- An editor that has been put away: only time and the disk go on. -/
def rest (e : Editor) : Event → Editor
  | .tick ms => e.tick ms
  | .disk disk => { e with disk }
  | .mishaps m => { e with mishaps := m }
  | _ => e

/-- One event. -/
def step (e : Editor) (event : Event) : Editor :=
  if e.mounted then
    let e := e.react event
    if e.mounted then e.settle else e
  else e.rest event

/-- A size the terminal reports, or the usual one if it reports none. -/
def sizeOr (usual size : Int) : Int := if size = 0 then usual else size

/-- An editor put into a terminal. -/
def mount (d : Desk) (filePath : Option Path) (lineBreak : LineBreak) (settingsPath : Path)
    (settings : Settings) (columns rows : Int) (disk : Disk) : Editor :=
  settle
    { binding := .mount d
      filePath, lineBreak, settingsPath, settings
      width := sizeOr 80 columns
      height := sizeOr 24 rows
      disk }

/-! ## Drawing -/

/-- What the status line tells. -/
def status (e : Editor) : Status where
  insertion := e.binding.shown.insertion
  enabled := e.binding.shown.enabled
  pending := e.binding.shown.pending
  fileName := e.filePath.elim (Text.ofString "[No Name]") Path.baseName
  modified := e.buffer.isModified
  canUndo := e.buffer.history.canUndo
  canRedo := e.buffer.history.canRedo
  line := e.cursorLine
  column := e.buffer.cursor.position - e.buffer.text.lineStart e.cursorLine
  message := e.message

/-- A switch in words. -/
def onOff (b : Bool) : Text := if b then Text.ofString "on" else Text.ofString "off"

/-- The keys of the editor's own. -/
def help (e : Editor) : Text :=
  Text.ofString "^s:Save ^q:Quit ^z:Undo ^r:Redo ^d/^u:Page ^t:Vi " ++ onOff e.binding.shown.enabled ++
    Text.ofString " ^b:Block cursor " ++ onOff e.settings.blockCursor

/-- The window on the text. -/
def window (e : Editor) : Element :=
  Window.render e.buffer.text e.buffer.cursor e.top e.textHeight e.binding.shown.style

/-- The whole screen. -/
def screen (e : Editor) : Element :=
  .box [("flexDirection", .word "column"), ("width", .number e.width), ("height", .number e.height)]
    [e.window, e.status.render,
      .box [("paddingX", .number 1)] [.label [("dimColor", .flag true)] e.help]]

end Editor

end ModalEditor
