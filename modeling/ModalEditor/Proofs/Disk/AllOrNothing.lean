import ModalEditor.Disk.TextFile
import ModalEditor.Proofs.Disk.Saving
import ModalEditor.Settings.File

/-!
# Saving is all or nothing

`Disk.AllOrNothing` says what a save may come to on a tree of directories and regular files, without
links, whatever lies at the file, at the temporary file and on the way, and whichever step fails: the
file has what was saved and there was no failure, or there was one and the file is as it was; no
temporary file is left; and nothing else is changed but for directories made on the way to the file.
`Disk.saveWith_allOrNothing` proves it of the steps of a save, and `Disk.save_all_or_nothing` states
it of texts and of settings.

The steps are followed on what is kept at each path (`Disk.Remains`); on trees this decides what is
found there.
-/

namespace ModalEditor

namespace Disk

section
variable {d d' : Disk} {p : Path} {ps : List Path}

/-! ## Directories on the way -/

theorem IsTree.makeAll {way : Path} (h : d.IsTree) (hps : d.Makeable way ps) :
    (d.makeAll ps).IsTree := by
  intro q n hn
  rw [lookup?_makeAll] at hn ⊢
  by_cases hq : q ∈ ps
  · exact if_pos hq
  rw [if_neg hq]
  by_cases hqn : q ++ [n] ∈ ps
  · exact (hps.rooted q n hqn).resolve_left hq
  · rw [if_neg hqn] at hn
    exact h q n hn

theorem Makeable.not_mem (hps : d.Makeable p.parent ps) : temporary p ∉ ps ∧ p.trimmed ∉ ps := by
  refine ⟨fun hmem => ?_, fun hmem => ?_⟩
  · have := (hps.onWay _ hmem).length_le
    rw [temporary_eq, List.length_append, List.length_singleton] at this
    omega
  · have hroot : p.trimmed = [] := by
      have := (hps.onWay _ hmem).length_le
      rw [Path.parent, List.length_dropLast] at this
      exact List.length_eq_zero_iff.1 (by omega)
    have := hps.missing _ hmem
    rw [hroot] at this
    cases this

/-! ## What remains -/

/-- A save that has made the directories `ps` leaves a tree that holds, away from the file and the
temporary file, what was there before. At the temporary file it leaves nothing, or what is no file
and was there before. -/
structure Remains (d : Disk) (p : Path) (ps : List Path) (d' : Disk) : Prop where
  tree : d'.IsTree
  elsewhere : ∀ q, q ≠ temporary p → q ≠ p.trimmed → d'.lookup? q = (d.makeAll ps).lookup? q
  temporary : (d'.lookup? (temporary p) = none ∧ d.lookup? (temporary p) ≠ some .directory) ∨
    (d'.lookup? (temporary p) = d.lookup? (temporary p) ∧
      ∀ bytes, d'.at? (temporary p) ≠ some (.file bytes))

theorem remains_of_failed {d₂ : Disk} (h : d.IsTree) (hps : d.Makeable p.parent ps)
    (hpart : d₂ = d.makeAll ps ∨ ∃ part, (d.makeAll ps).write (temporary p) part = .ok d₂)
    (hclean : (d' = d₂ ∧ ∀ bytes, d₂.stat (temporary p) ≠ .ok (.file bytes)) ∨
      d' = d₂.drop (temporary p) ∧ ∃ bytes, d₂.stat (temporary p) = .ok (.file bytes)) :
    d.Remains p ps d' ∧ d'.lookup? p.trimmed = d.lookup? p.trimmed := by
  have hmade : ∀ q, q ∉ ps → (d.makeAll ps).lookup? q = d.lookup? q := fun q hq => by
    rw [lookup?_makeAll, if_neg hq]
  obtain ⟨htemp, htarget⟩ := hps.not_mem
  have htree := h.makeAll hps
  -- before cleaning up, only the temporary file may have been touched
  obtain ⟨htree₂, hoff, hstart⟩ : d₂.IsTree ∧
      (∀ q, q ≠ temporary p → d₂.lookup? q = (d.makeAll ps).lookup? q) ∧
      (d₂.lookup? (temporary p) = d.lookup? (temporary p) ∨
        d.lookup? (temporary p) ≠ some .directory ∧
          ∃ part, d₂.stat (temporary p) = .ok (.file part)) := by
    rcases hpart with rfl | ⟨part, hwrite⟩
    · exact ⟨htree, fun _ _ => rfl, .inl (hmade _ htemp)⟩
    · obtain ⟨-, -, hfree, hput⟩ := write_eq_ok_iff.1 hwrite
      refine ⟨htree.write hwrite, fun q hq => ?_, .inr ⟨?_, part, stat_of_write hwrite⟩⟩
      · rw [hput, lookup?_put_of_ne hq]
      · rwa [hmade _ htemp] at hfree
  have htrimmed : (temporary p).trimmed = temporary p :=
    Path.trimmed_of_endsInSlash_eq_false (endsInSlash_temporary p)
  have hne : p.trimmed ≠ temporary p := (temporary_ne_trimmed p).symm
  rcases hclean with ⟨rfl, hnone⟩ | ⟨rfl, bytes, hfile⟩
  · refine ⟨⟨htree₂, fun q hq _ => hoff q hq, .inr ⟨?_, fun bytes hat => ?_⟩⟩, ?_⟩
    · rcases hstart with heq | ⟨-, part, hstat⟩
      · exact heq
      · exact absurd hstat (hnone part)
    · exact hnone bytes (Disk.at?_eq_some_iff.1 hat)
    · rw [hoff _ hne, hmade _ htarget]
  · have hlookup := lookup?_of_stat hfile
    rw [htrimmed] at hlookup
    refine ⟨⟨htree₂.drop (by rw [hlookup]; exact nofun), fun q hq _ => ?_,
      .inl ⟨lookup?_drop_self _ (temporary_ne_nil p), ?_⟩⟩, ?_⟩
    · rw [lookup?_drop_of_ne hq, hoff q hq]
    · rcases hstart with heq | ⟨hdir, -⟩
      · rw [← heq, hlookup]
        exact nofun
      · exact hdir
    · rw [lookup?_drop_of_ne hne, hoff _ hne, hmade _ htarget]

theorem remains_of_moved {bytes : List UInt8} {d₂ : Disk} (h : d.IsTree)
    (hps : d.Makeable p.parent ps) (hwrite : (d.makeAll ps).write (temporary p) bytes = .ok d₂)
    (hrename : d₂.rename (temporary p) p = .ok d') : d.Remains p ps d' := by
  have htree₂ := (h.makeAll hps).write hwrite
  obtain ⟨-, -, htempfree, hput⟩ := write_eq_ok_iff.1 hwrite
  obtain ⟨entry, hstat, hopen, hs, hfree, rfl⟩ := rename_eq_ok_iff.1 hrename
  obtain rfl : entry = .file bytes := by
    rw [stat_of_write hwrite] at hstat
    exact (Except.ok.inj hstat).symm
  have hp : p ≠ [] := fun hp => hfree (by rw [hp]; rfl)
  have htrimmed := Path.trimmed_of_endsInSlash_eq_false hs
  have hne : p ≠ temporary p := fun heq => temporary_ne_trimmed p (by rw [htrimmed, ← heq])
  have hlookup : d₂.lookup? (temporary p) = some (.file bytes) := by
    rw [hput, lookup?_put_self (temporary_ne_nil p)]
  have hparent : p.parent ≠ temporary p := fun heq => by
    have := congrArg List.length heq
    rw [temporary_eq, List.length_append, List.length_singleton] at this
    omega
  refine ⟨(htree₂.drop (by rw [hlookup]; exact nofun)).put_file hs ?_ ?_, fun q hq hqp => ?_,
    .inl ⟨?_, ?_⟩⟩
  · rw [lookup?_drop_of_ne hparent]
    exact lookup?_parent hopen hp hs
  · rwa [lookup?_drop_of_ne hne]
  · rw [htrimmed] at hqp
    rw [lookup?_put_of_ne hqp, lookup?_drop_of_ne hq, hput, lookup?_put_of_ne hq]
  · rw [lookup?_put_of_ne hne.symm, lookup?_drop_self _ (temporary_ne_nil p)]
  · rwa [lookup?_makeAll, if_neg hps.not_mem.1] at htempfree

/-! ## All or nothing -/

/-- A save of `bytes` to `p` that comes to the disk and the failure `saved` is all or nothing. -/
structure AllOrNothing (d : Disk) (p : Path) (bytes : List UInt8) (saved : Disk × Option FileError) :
    Prop where
  tree : saved.1.IsTree
  done : saved.2 = none → saved.1.at? p = some (.file bytes)
  /-- After a failure, the same as before is found at the file, with or without a slash. -/
  failed : saved.2 ≠ none → ∀ q, q.trimmed = p.trimmed → saved.1.at? q = d.at? q
  temporary : saved.1.at? (temporary p) =
    if d.at? (temporary p) = some .directory then some .directory else none
  /-- Everywhere else the same as before is found, or a directory on the way to the file where
  nothing was. -/
  elsewhere : ∀ q, q.trimmed ≠ p.trimmed → q.trimmed ≠ Disk.temporary p →
    saved.1.at? q = d.at? q ∨
      q.trimmed <+: p.parent ∧ d.at? q = none ∧ saved.1.at? q = some .directory

theorem Remains.at?_temporary (h : d.IsTree) (hr : d.Remains p ps d') :
    d'.at? (Disk.temporary p) =
      if d.at? (Disk.temporary p) = some .directory then some .directory else none := by
  have htrimmed : (Disk.temporary p).trimmed = Disk.temporary p :=
    Path.trimmed_of_endsInSlash_eq_false (endsInSlash_temporary p)
  rcases hr.temporary with ⟨hnone, hdir⟩ | ⟨hsame, hfile⟩
  · have hbefore : d.at? (Disk.temporary p) ≠ some .directory := fun hat => by
      have := (h.at?_eq_some_iff.1 hat).2.2.2
      rw [htrimmed] at this
      exact hdir this
    rw [if_neg hbefore, Option.eq_none_iff_forall_ne_some]
    intro e hat
    have := (hr.tree.at?_eq_some_iff.1 hat).2.2.2
    rw [htrimmed, hnone] at this
    cases this
  · have hat := h.at?_congr hr.tree (p := Disk.temporary p) (by rwa [htrimmed])
    rw [hat] at hfile ⊢
    cases hbefore : d.at? (Disk.temporary p) with
    | none => rfl
    | some e =>
      cases e with
      | directory => rfl
      | file bytes => exact absurd hbefore (hfile bytes)

theorem Remains.at?_elsewhere (h : d.IsTree) (hps : d.Makeable p.parent ps) (hr : d.Remains p ps d')
    {q : Path} (hq : q.trimmed ≠ p.trimmed) (hqt : q.trimmed ≠ Disk.temporary p) :
    d'.at? q = d.at? q ∨
      q.trimmed <+: p.parent ∧ d.at? q = none ∧ d'.at? q = some .directory := by
  have hlookup := hr.elsewhere _ hqt hq
  rw [lookup?_makeAll] at hlookup
  by_cases hmem : q.trimmed ∈ ps
  · rw [if_pos hmem] at hlookup
    have hbefore : d.at? q = none := by
      rw [Option.eq_none_iff_forall_ne_some]
      intro e hat
      have := (h.at?_eq_some_iff.1 hat).2.2.2
      rw [hps.missing _ hmem] at this
      cases this
    cases hafter : d'.at? q with
    | none => exact .inl hbefore.symm
    | some e =>
      have := (hr.tree.at?_eq_some_iff.1 hafter).2.2.2
      rw [hlookup] at this
      cases this
      exact .inr ⟨hps.onWay _ hmem, hbefore, rfl⟩
  · rw [if_neg hmem] at hlookup
    exact .inl (h.at?_congr hr.tree hlookup)

/-- **The steps of a save.** -/
theorem saveWith_allOrNothing (h : d.IsTree) (m : Mishaps) (p : Path) (bytes : List UInt8) :
    d.AllOrNothing p bytes (d.saveWith m p bytes) := by
  obtain ⟨ps, hps, ⟨hr, d₂, hpart, hclean⟩ | ⟨hr, d₂, hwrite, hrename⟩⟩ :=
    saveWith_cases (Prod.ext rfl rfl : d.saveWith m p bytes = (_, _))
  · obtain ⟨hremains, htarget⟩ := remains_of_failed h hps hpart hclean
    exact
      { tree := hremains.tree
        done := fun hnone => absurd hnone hr
        failed := fun _ q hq => h.at?_congr hremains.tree (by rwa [hq])
        temporary := hremains.at?_temporary h
        elsewhere := fun _ hq hqt => hremains.at?_elsewhere h hps hq hqt }
  · have hremains := remains_of_moved h hps hwrite hrename
    exact
      { tree := hremains.tree
        done := fun hnone =>
          Disk.at?_eq_some_iff.2 (read_eq_ok_iff.1 (read_of_saveWith_ok (Prod.ext rfl hnone)))
        failed := fun hfailed => absurd hr hfailed
        temporary := hremains.at?_temporary h
        elsewhere := fun _ hq hqt => hremains.at?_elsewhere h hps hq hqt }

/-- **Saving a text and saving settings is all or nothing**, on every tree of directories and regular
files (links are left out), at every path, for every text and line break and all settings, and whichever
steps fail. -/
theorem save_all_or_nothing (h : d.IsTree) (m : Mishaps) (p : Path) :
    (∀ t b, d.AllOrNothing p.onDisk (TextFile.bytesOf t b) (TextFile.saveWith d m p t b)) ∧
      ∀ s, d.AllOrNothing p.onDisk (Utf8.encode s.toText) (Settings.saveWith d m p s) :=
  ⟨fun _ _ => saveWith_allOrNothing h m _ _, fun _ => saveWith_allOrNothing h m _ _⟩

/-- With a disk that is full after two bytes, over a file that is there, beside a temporary file
left behind earlier. -/
theorem save_all_or_nothing_of_full_disk :
    let d : Disk := ⟨[([Text.ofString "a"], .file [98]), ([Text.ofString ".a.tmp"], .file [99])]⟩
    let m : Mishaps := { writing := some (2, .noSpace) }
    let p : Path := [Text.ofString "a"]
    d.IsTree ∧ (TextFile.saveWith d m p (Text.ofString "abc") .lf).2 = some .noSpace ∧
      (∀ t b, d.AllOrNothing p.onDisk (TextFile.bytesOf t b) (TextFile.saveWith d m p t b)) ∧
      ∀ s, d.AllOrNothing p.onDisk (Utf8.encode s.toText) (Settings.saveWith d m p s) :=
  have htree := isTree_of_entries (by decide)
  ⟨htree, by decide, save_all_or_nothing htree _ _⟩

end

end Disk

end ModalEditor
