import ModalEditor.Main
import ModalEditor.Settings.JsonFault
import ModalEditor.Undo.Workbench
import ModalEditor.Proofs.Buffer.Timeline
import ModalEditor.Proofs.Modal.Composition
import ModalEditor.Proofs.Modal.Office
import ModalEditor.Proofs.Modal.Surrogates
import ModalEditor.Proofs.Modal.UndoStep
import ModalEditor.Proofs.Disk.LineBreak
import ModalEditor.Proofs.Disk.Tree
import ModalEditor.Proofs.Disk.Saving
import ModalEditor.Proofs.Disk.RoundTrip
import ModalEditor.Proofs.Buffer.Version
import ModalEditor.Proofs.Host.AutoSave
import ModalEditor.Proofs.Disk.AllOrNothing
import ModalEditor.Proofs.Buffer.Watching
import ModalEditor.Proofs.Modal.Notices
import ModalEditor.Proofs.Host.Freshness
import ModalEditor.Proofs.Buffer.Loading
import ModalEditor.Proofs.Buffer.Rewinding
import ModalEditor.Proofs.Key.Letter
import ModalEditor.Proofs.Modal.Stillness
import ModalEditor.Proofs.Modal.Repetition
import ModalEditor.Proofs.Buffer.LineEdits
import ModalEditor.Proofs.Modal.LineMoves
import ModalEditor.Proofs.Host.BlockCursor
import ModalEditor.Proofs.Host.IdleSave
import ModalEditor.Proofs.Buffer.LineIndex
import ModalEditor.Proofs.Buffer.Indentation
import ModalEditor.Proofs.Modal.Replacement
import ModalEditor.Proofs.Modal.Registers
import ModalEditor.Proofs.Text.Words
import ModalEditor.Proofs.Text.Walk
import ModalEditor.Proofs.Motion.Vertical
import ModalEditor.Proofs.Motion.Landing
import ModalEditor.Proofs.Undo.Batches
import ModalEditor.Proofs.Buffer.Erasure
import ModalEditor.Proofs.Modal.Insertion
import ModalEditor.Proofs.Settings.Fuel
import ModalEditor.Proofs.Settings.Updates
import ModalEditor.Proofs.Settings.Written
import ModalEditor.Proofs.View.Tiling
import ModalEditor.Proofs.Host.Debouncing
import ModalEditor.Proofs.Host.Frames
import ModalEditor.Proofs.Host.EditorSaver
import ModalEditor.Proofs.Undo.Workbench
