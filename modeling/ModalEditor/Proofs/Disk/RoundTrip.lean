import ModalEditor.Proofs.Disk.LineBreak
import ModalEditor.Proofs.Disk.Saving

/-!
# Loading what was saved, saving what was loaded

A text saved with both units to a break is loaded as it was, whatever it holds; saved with line
feeds, it is loaded with every carriage return before a line feed gone (`TextFile.load_of_save`). A
file of well-formed content that is loaded and saved again untouched has all its breaks in the style
of most of them and is otherwise the same, so that a file of one style is the same byte for byte; a
save that fails leaves it alone (`TextFile.resave`).
-/

namespace ModalEditor

namespace TextFile

variable {d d' : Disk} {p : Path}

theorem load_of_read {bytes : List UInt8} (h : d.read p.onDisk = .ok bytes) :
    load d p = .ok (ofContent (Utf8.decode bytes)) := by
  rw [load, if_pos (Disk.has_of_read h), h]
  rfl

theorem decode_bytesOf {t : Text} (ht : t.wellFormed = true) (b : LineBreak) :
    Utf8.decode (bytesOf t b) = b.restore t :=
  Utf8.decode_encode (LineBreak.wellFormed_restore ht b)

/-- **What was saved is loaded.** After a save of a well-formed text that went through, the file is
there; loaded, it is the text itself if it was saved with both units to a break, and else the text
without the carriage returns before its line feeds. So exactly a text that has such carriage returns
and is saved with line feeds is not what is loaded. -/
theorem load_of_save {t : Text} (ht : t.wellFormed = true) {m : Mishaps} {b : LineBreak}
    (h : saveWith d m p t b = (d', none)) :
    ∃ f, load d' p = .ok f ∧ f.existed = true ∧
      f.text = (match b with | .lf => LineBreak.unify t | .crlf => t) ∧
      (f.text = t ↔ b = .crlf ∨ ¬ [carriageReturn, newline] <:+: t) := by
  refine ⟨_, load_of_read (Disk.read_of_saveWith_ok h), rfl, ?_⟩
  rw [decode_bytesOf ht]
  cases b with
  | lf =>
    exact ⟨rfl, (LineBreak.unify_eq_self_iff t).trans (or_iff_right nofun).symm⟩
  | crlf =>
    have htext := LineBreak.unify_restore_crlf t
    exact ⟨htext, iff_of_true htext (.inl rfl)⟩

/-- A text with a lone carriage return, and a carriage return before a line feed. -/
theorem load_of_save_of_carriageReturns :
    let t : Text := [97, 13, 98, 13, 10]
    let p : Path := [[102]]
    t.wellFormed = true ∧ saveWith {} {} p t .crlf = ((saveWith {} {} p t .crlf).1, none) ∧
      ∃ f, load (saveWith {} {} p t .crlf).1 p = .ok f ∧ f.existed = true ∧ f.text = t ∧
        (f.text = t ↔ LineBreak.crlf = .crlf ∨ ¬ [carriageReturn, newline] <:+: t) := by
  have hsave : saveWith {} {} [[102]] [97, 13, 98, 13, 10] .crlf =
      ((saveWith {} {} [[102]] [97, 13, 98, 13, 10] .crlf).1, none) := by decide
  exact ⟨by decide, hsave, load_of_save (by decide) hsave⟩

/-- Saved with line feeds, a text with a carriage return before one is loaded without it. -/
theorem load_of_save_drops_carriageReturn :
    let t : Text := [97, 13, 10, 98]
    let p : Path := [[102]]
    ∃ d', t.wellFormed = true ∧ saveWith {} {} p t .lf = (d', none) ∧
      ∃ f, load d' p = .ok f ∧ f.existed = true ∧ f.text = [97, 10, 98] ∧ f.text ≠ t := by
  have hsave : saveWith {} {} [[102]] [97, 13, 10, 98] .lf =
      (⟨[([[102]], .file [97, 13, 10, 98])]⟩, none) := by decide
  have hload : load ⟨[([[102]], .file [97, 13, 10, 98])]⟩ [[102]] =
      .ok ⟨[97, 10, 98], .crlf, true⟩ := rfl
  exact ⟨_, by decide, hsave, _, hload, rfl, rfl, by decide⟩

/-- **An untouched file saved again.** The content of a file without fault, loaded and saved with
the text and the break that loading gave, whatever mishaps the save meets: with `s` the lines and
breaks of the content, a save that goes through leaves the file with the same lines, each broken in
the style of strictly more breaks of the content (the line feed in a tie). A save that fails leaves
the file as it was, and so does every save if all breaks are alike. Without mishaps the save goes
through exactly if the temporary file fits beside the file. -/
theorem resave {bytes : List UInt8} (hb : Utf8.WellFormed bytes)
    (hfile : d.read p.onDisk = .ok bytes) (m : Mishaps) :
    ∃ (s : Sheet) (f : TextFile), s.text.wellFormed = true ∧ Utf8.encode s.text = bytes ∧
      load d p = .ok f ∧ f.existed = true ∧
      let saved := saveWith d m p f.text f.lineBreak
      (saved.2 = none → saved.1.read p.onDisk = .ok (Utf8.encode (s.written s.majority))) ∧
      (saved.2 ≠ none → saved.1.read p.onDisk = .ok bytes) ∧
      (LineBreak.Uniform s.text → saved.1.read p.onDisk = .ok bytes) ∧
      (m = {} → (saved.2 = none ↔ d.TemporaryFits p.onDisk)) := by
  obtain ⟨s, hs⟩ := Sheet.exists_text (Utf8.decode bytes)
  obtain ⟨hwell, hbytes⟩ := hb.decode
  rw [← hs] at hwell hbytes
  refine ⟨s, ofContent s.text, hwell, hbytes, by rw [load_of_read hfile, hs], rfl, ?_⟩
  intro saved
  have hcontent : bytesOf (ofContent s.text).text (ofContent s.text).lineBreak =
      Utf8.encode (s.written s.majority) := by
    rw [bytesOf, ofContent, s.unify_text, s.dominant_text, s.restore_written]
  have hok : saved.2 = none → saved.1.read p.onDisk = .ok (Utf8.encode (s.written s.majority)) := by
    intro h
    rw [← hcontent]
    exact Disk.read_of_saveWith_ok (Prod.ext rfl h)
  have hfailed : saved.2 ≠ none → saved.1.read p.onDisk = .ok bytes := by
    intro h
    obtain ⟨e, he⟩ := Option.ne_none_iff_exists'.1 h
    exact Disk.read_of_saveWith_error (Prod.ext rfl he) hfile
  refine ⟨hok, hfailed, fun hu => ?_, ?_⟩
  · by_cases h : saved.2 = none
    · rw [hok h, Sheet.written_majority hu, hbytes]
    · exact hfailed h
  · rintro rfl
    exact Disk.saveWith_isNone_iff hfile _

/-- A file with one break of each style and a lone carriage return. -/
theorem resave_of_tie :
    let bytes : List UInt8 := [97, 13, 10, 13, 98, 10]
    let p : Path := [[102]]
    let d : Disk := ⟨[(p, .file bytes)]⟩
    Utf8.WellFormed bytes ∧ d.read p.onDisk = .ok bytes ∧
    ∃ (s : Sheet) (f : TextFile), s.text.wellFormed = true ∧ Utf8.encode s.text = bytes ∧
      load d p = .ok f ∧ f.existed = true ∧
      let saved := saveWith d {} p f.text f.lineBreak
      (saved.2 = none → saved.1.read p.onDisk = .ok (Utf8.encode (s.written s.majority))) ∧
      (saved.2 ≠ none → saved.1.read p.onDisk = .ok bytes) ∧
      (LineBreak.Uniform s.text → saved.1.read p.onDisk = .ok bytes) ∧
      (({} : Mishaps) = {} → (saved.2 = none ↔ d.TemporaryFits p.onDisk)) := by
  intro bytes p d
  have hb : Utf8.WellFormed bytes := ⟨[97, 13, 10, 13, 98, 10], by simp [IsScalar], by decide⟩
  have hfile : d.read p.onDisk = .ok bytes := rfl
  exact ⟨hb, hfile, resave hb hfile {}⟩

end TextFile

end ModalEditor
