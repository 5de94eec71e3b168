import ModalEditor.Disk.Save
import ModalEditor.Proofs.Disk.Tree

/-!
# What a save does to a disk

A save that goes through leaves the file with the bytes saved (`Disk.read_of_saveWith_ok`). One
that fails touches nothing but the temporary file and directories (`Disk.saveWith_error`), so that
a file that was there is as it was (`Disk.read_of_saveWith_error`). Over a file that is there, a
save goes through on a machine without mishaps exactly if the temporary file fits beside it
(`Disk.saveWith_isNone_iff`), and of two saves the second is all that counts (`Disk.saved_of_saveWith`).
-/

namespace ModalEditor

namespace Disk

/-! ## The temporary file -/

section
variable (p : Path)

/-- The name of the temporary file. -/
def temporaryName : Text := Path.dot :: p.baseName ++ Text.ofString ".tmp"

theorem temporary_eq : temporary p = p.parent ++ [temporaryName p] := rfl

theorem temporaryName_ne_nil : temporaryName p ≠ [] := List.cons_ne_nil _ _

theorem temporary_ne_nil : temporary p ≠ [] :=
  List.append_ne_nil_of_right_ne_nil _ (List.cons_ne_nil _ _)

theorem endsInSlash_temporary : (temporary p).endsInSlash = false :=
  Path.endsInSlash_concat (temporaryName_ne_nil p) _

theorem parent_temporary : (temporary p).parent = p.parent :=
  Path.parent_concat (temporaryName_ne_nil p) _

theorem baseName_temporary : (temporary p).baseName = temporaryName p :=
  Path.baseName_concat (temporaryName_ne_nil p) _

theorem temporary_ne_trimmed : temporary p ≠ p.trimmed := by
  intro h
  have hbase : p.baseName = temporaryName p := by
    rw [Path.baseName, ← h, temporary_eq, List.getLast?_concat, Option.getD_some]
  have hlength := congrArg List.length hbase
  rw [temporaryName, List.cons_append, List.length_cons, List.length_append] at hlength
  omega

theorem temporary_off_way : ¬ temporary p <+: p.trimmed := by
  intro h
  have hlength : p.trimmed.length ≤ (temporary p).length := by
    rw [temporary_eq, List.length_append, List.length_singleton, Path.parent, List.length_dropLast]
    omega
  exact temporary_ne_trimmed p (h.eq_of_length_le hlength)

theorem not_prefix_parent {q : Path}
    (h : q = temporary p ∨ q = p ∧ p ≠ [] ∧ p.endsInSlash = false) :
    ¬ q <+: p.parent.trimmed := by
  intro hq
  have hlength := (hq.trans (Path.trimmed_prefix_self _)).length_le
  rcases h with rfl | ⟨rfl, hp, hs⟩
  · rw [temporary_eq, List.length_append, List.length_singleton] at hlength
    omega
  · have := congrArg List.length (Path.parent_append_baseName hp hs).1
    rw [List.length_append, List.length_singleton] at this
    omega

end

/-! ## Steps -/

section
variable {d d' : Disk} {m : Mishaps} {p : Path} {bytes : List UInt8} {e : FileError}

/-- Directories that can be made one after the other on the way to a path: nothing lies there, and
each of them lies in a directory or in another of them. -/
structure Makeable (d : Disk) (way : Path) (ps : List Path) : Prop where
  missing : ∀ q ∈ ps, d.lookup? q = none
  onWay : ∀ q ∈ ps, q <+: way
  rooted : ∀ q n, q ++ [n] ∈ ps → q ∈ ps ∨ d.lookup? q = some .directory

theorem makeable_nil (d : Disk) (way : Path) : d.Makeable way [] :=
  ⟨nofun, nofun, nofun⟩

/-- What is missing on a walk from a place, or the first part of it. Only the place itself may lie in
something else than a directory. -/
theorem missing_spec {place : Path} {names : List Text} {ps qs : List Path}
    (h : d.missing place names = .ok ps) (hqs : qs <+: ps) :
    (∀ q ∈ qs, d.lookup? q = none ∧ q <+: place ++ names) ∧
      ∀ q n, q ++ [n] ∈ qs → q ∈ qs ∨ d.lookup? q = some .directory ∨ q ++ [n] = place := by
  induction names generalizing place ps qs with
  | nil =>
    rw [missing] at h
    split at h
    · cases h
      rw [List.prefix_nil.1 hqs]
      exact ⟨nofun, nofun⟩
    · cases h
    · rename_i hnone
      cases h
      have hplace : ∀ q ∈ qs, q = place := fun q hq => List.mem_singleton.1 (hqs.subset hq)
      refine ⟨fun q hq => ?_, fun q n hq => .inr (.inr (hplace _ hq))⟩
      rw [hplace q hq]
      exact ⟨hnone, List.prefix_append _ _⟩
  | cons n rest ih =>
    rw [missing] at h
    split at h
    · rename_i hdir
      obtain ⟨hlook, hroot⟩ := ih h hqs
      rw [List.append_assoc] at hlook
      refine ⟨hlook, fun q m hq => ?_⟩
      rcases hroot q m hq with hmem | hq' | heq
      · exact .inl hmem
      · exact .inr (.inl hq')
      · rw [(List.append_inj' heq rfl).1]
        exact .inr (.inl hdir)
    · cases h
    · rename_i hnone
      cases hrest : d.missing (place ++ [n]) rest with
      | error e => simp [hrest, Except.map] at h
      | ok ps' =>
        rw [hrest] at h
        cases h
        rcases List.prefix_cons_iff.1 hqs with rfl | ⟨qs', rfl, hqs'⟩
        · exact ⟨nofun, nofun⟩
        obtain ⟨hlook, hroot⟩ := ih hrest hqs'
        rw [List.append_assoc] at hlook
        refine ⟨fun q hq => ?_, fun q m hq => ?_⟩
        · rcases List.mem_cons.1 hq with rfl | hq
          · exact ⟨hnone, List.prefix_append _ _⟩
          · exact hlook q hq
        · rcases List.mem_cons.1 hq with heq | hq
          · exact .inr (.inr heq)
          · rcases hroot q m hq with hmem | hq' | heq
            · exact .inl (List.mem_cons_of_mem _ hmem)
            · exact .inr (.inl hq')
            · rw [(List.append_inj' heq rfl).1]
              exact .inl (.head _)

theorem agreesOff_makeAll {ps : List Path} (h : ∀ q ∈ ps, d.lookup? q = none) :
    AgreesOff [] d (d.makeAll ps) := by
  intro q _
  rw [lookup?_makeAll]
  by_cases hq : q ∈ ps
  · exact .inr ⟨h q hq, if_pos hq⟩
  · exact .inl (if_neg hq)

theorem tryMakeDirectories_spec (d : Disk) (m : Mishaps) (p : Path) :
    ∃ ps, d.Makeable p ps ∧ (d.tryMakeDirectories m p).1 = d.makeAll ps := by
  have hmakeable : ∀ {ps qs : List Path}, d.missing [] p = .ok ps → qs <+: ps →
      d.Makeable p qs := fun h hqs =>
    ⟨fun q hq => ((missing_spec h hqs).1 q hq).1, fun q hq => ((missing_spec h hqs).1 q hq).2,
      fun q n hq => ((missing_spec h hqs).2 q n hq).imp_right fun h =>
        h.resolve_right (List.append_ne_nil_of_right_ne_nil _ (List.cons_ne_nil _ _))⟩
  unfold tryMakeDirectories
  split
  · exact ⟨[], makeable_nil d p, rfl⟩
  · exact ⟨[], makeable_nil d p, rfl⟩
  · rename_i ps _ hps
    have hfit := List.takeWhile_prefix (l := ps) fun q => !Path.isLongName q.baseName
    dsimp only
    split
    · exact ⟨_, hmakeable hps ((List.take_prefix _ _).trans hfit), rfl⟩
    · exact ⟨_, hmakeable hps hfit, rfl⟩

theorem write_agreesOff (h : d.write p bytes = .ok d') : AgreesOff [p] d d' := by
  rw [(write_eq_ok_iff.1 h).2.2.2]
  exact .put _ _ _

theorem stat_of_write (h : d.write p bytes = .ok d') : d'.stat p = .ok (.file bytes) := by
  obtain ⟨hopen, hs, hfree, rfl⟩ := write_eq_ok_iff.1 h
  have hp : p ≠ [] := fun hp => hfree (by rw [hp]; rfl)
  rw [stat_eq_ok_iff hp hs]
  refine ⟨(AgreesOff.put d p _).openParent (fun q hq => ?_) hopen, lookup?_put_self hp⟩
  exact not_prefix_parent p (.inr ⟨List.mem_singleton.1 hq, hp, hs⟩)

theorem tryWrite_cases {r : Option FileError} (h : d.tryWrite m p bytes = (d', r)) :
    (r = none ∧ d.write p bytes = .ok d') ∨
      ∃ e, r = some e ∧ (d' = d ∨ ∃ part, d.write p part = .ok d') := by
  unfold tryWrite at h
  split at h
  · cases h
    exact .inr ⟨_, rfl, .inl rfl⟩
  · split at h
    · cases h
      exact .inl ⟨rfl, ‹_›⟩
    · cases h
      exact .inr ⟨_, rfl, .inl rfl⟩
  · split at h
    · cases h
      exact .inr ⟨_, rfl, .inr ⟨_, ‹_›⟩⟩
    · cases h
      exact .inr ⟨_, rfl, .inl rfl⟩

theorem tryRename_eq_none {q : Path} (h : d.tryRename m p q = (d', none)) :
    d.rename p q = .ok d' := by
  unfold tryRename at h
  split at h
  · cases h
  · split at h <;> simp_all

theorem tryRename_eq_some {q : Path} (h : d.tryRename m p q = (d', some e)) : d' = d := by
  unfold tryRename at h
  split at h
  · simp_all
  · split at h <;> simp_all

theorem cleanUp_cases {r : Option FileError} (h : d.cleanUp p e = (d', r)) :
    r ≠ none ∧ ((d' = d ∧ ∀ bytes, d.stat p ≠ .ok (.file bytes)) ∨
      d' = d.drop p ∧ ∃ bytes, d.stat p = .ok (.file bytes)) := by
  unfold cleanUp remove at h
  cases hs : d.stat p with
  | error e' =>
    have hhas : d.has p = false := by rw [has, hs]; rfl
    rw [hhas, if_neg Bool.false_ne_true] at h
    cases h
    exact ⟨Option.some_ne_none _, .inl ⟨rfl, by simp⟩⟩
  | ok entry =>
    have hhas : d.has p = true := by rw [has, hs]; rfl
    rw [if_pos hhas, hs] at h
    cases entry with
    | directory =>
      cases h
      exact ⟨Option.some_ne_none _, .inl ⟨rfl, by simp⟩⟩
    | file bytes =>
      cases h
      exact ⟨Option.some_ne_none _, .inr ⟨rfl, bytes, rfl⟩⟩

/-- The steps of a save: some directories are made, and then one of the steps fails, with the
temporary file written in full, in part or not at all, or the temporary file is written and moved. -/
theorem saveSteps_cases {r : Option FileError} (h : d.saveSteps m p bytes = (d', r)) :
    ∃ ps, d.Makeable p.parent ps ∧
      ((∃ e, r = some e ∧
          (d' = d.makeAll ps ∨ ∃ part, (d.makeAll ps).write (temporary p) part = .ok d')) ∨
        r = none ∧ ∃ d₂, (d.makeAll ps).write (temporary p) bytes = .ok d₂ ∧
          d₂.rename (temporary p) p = .ok d') := by
  obtain ⟨⟨d₁, r₁⟩, hmade⟩ : ∃ made, made = if d.has p.parent then (d, none)
    else d.tryMakeDirectories m p.parent := ⟨_, rfl⟩
  obtain ⟨ps, hps, rfl⟩ : ∃ ps, d.Makeable p.parent ps ∧ d₁ = d.makeAll ps := by
    split at hmade
    · cases hmade
      exact ⟨[], makeable_nil d p.parent, rfl⟩
    · have := d.tryMakeDirectories_spec m p.parent
      rwa [← hmade] at this
  refine ⟨ps, hps, ?_⟩
  unfold saveSteps at h
  rw [← hmade] at h
  cases r₁ with
  | some e =>
    cases h
    exact .inl ⟨e, rfl, .inl rfl⟩
  | none =>
    cases hw : (d.makeAll ps).tryWrite m (temporary p) bytes with
    | mk d₂ r₂ =>
      simp only [hw] at h
      rcases tryWrite_cases hw with ⟨rfl, hwrite⟩ | ⟨e, rfl, hpart⟩
      · cases r with
        | some e => exact .inl ⟨e, rfl, .inr ⟨bytes, by rwa [tryRename_eq_some h]⟩⟩
        | none => exact .inr ⟨rfl, d₂, hwrite, tryRename_eq_none h⟩
      · cases h
        exact .inl ⟨e, rfl, hpart⟩

/-! ## Saves -/

/-- What a save comes to. It goes through, and the temporary file was written and moved; or it fails
with the temporary file written in full, in part or not at all, and what was there is taken away
again if it is a file. -/
theorem saveWith_cases {r : Option FileError} (h : d.saveWith m p bytes = (d', r)) :
    ∃ ps, d.Makeable p.parent ps ∧
      ((r ≠ none ∧ ∃ d₂,
          (d₂ = d.makeAll ps ∨ ∃ part, (d.makeAll ps).write (temporary p) part = .ok d₂) ∧
          ((d' = d₂ ∧ ∀ bytes, d₂.stat (temporary p) ≠ .ok (.file bytes)) ∨
            d' = d₂.drop (temporary p) ∧ ∃ bytes, d₂.stat (temporary p) = .ok (.file bytes))) ∨
        r = none ∧ ∃ d₂, (d.makeAll ps).write (temporary p) bytes = .ok d₂ ∧
          d₂.rename (temporary p) p = .ok d') := by
  cases hs : d.saveSteps m p bytes with
  | mk d₁ r₁ =>
    obtain ⟨ps, hps, ⟨e, rfl, hpart⟩ | ⟨rfl, hok⟩⟩ := saveSteps_cases hs
    · simp only [saveWith, hs] at h
      obtain ⟨hr, hclean⟩ := cleanUp_cases h
      exact ⟨ps, hps, .inl ⟨hr, d₁, hpart, hclean⟩⟩
    · simp only [saveWith, hs] at h
      cases h
      exact ⟨ps, hps, .inr ⟨rfl, hok⟩⟩

theorem saveWith_error (h : d.saveWith m p bytes = (d', some e)) :
    AgreesOff [temporary p] d d' := by
  obtain ⟨ps, hps, ⟨-, d₂, hpart, hclean⟩ | ⟨hr, -⟩⟩ := saveWith_cases h
  · have h₁ : AgreesOff [temporary p] d (d.makeAll ps) :=
      (agreesOff_makeAll hps.missing).mono (List.forall_mem_nil _)
    have h₂ : AgreesOff [temporary p] d d₂ := by
      rcases hpart with rfl | ⟨part, hwrite⟩
      · exact h₁
      · exact h₁.trans (write_agreesOff hwrite)
    rcases hclean with ⟨rfl, -⟩ | ⟨rfl, -⟩
    · exact h₂
    · exact h₂.trans (.drop _ _)
  · cases hr

theorem read_of_saveWith_error {old : List UInt8} (h : d.saveWith m p bytes = (d', some e))
    (hold : d.read p = .ok old) : d'.read p = .ok old := by
  rw [read_eq_ok_iff] at hold ⊢
  refine (saveWith_error h).stat (fun q hq => ?_) hold
  rw [List.mem_singleton.1 hq]
  exact temporary_off_way p

theorem saveWith_eq_none (h : d.saveWith m p bytes = (d', none)) :
    ∃ d₁ d₂, AgreesOff [] d d₁ ∧ d₁.write (temporary p) bytes = .ok d₂ ∧
      d₂.rename (temporary p) p = .ok d' := by
  obtain ⟨ps, hps, ⟨hr, -⟩ | ⟨-, d₂, hwrite, hrename⟩⟩ := saveWith_cases h
  · exact absurd rfl hr
  · exact ⟨_, d₂, agreesOff_makeAll hps.missing, hwrite, hrename⟩

theorem rename_of_write {d₁ d₂ : Disk} (hwrite : d₁.write (temporary p) bytes = .ok d₂)
    (hrename : d₂.rename (temporary p) p = .ok d') :
    d' = (d₂.drop (temporary p)).put p (.file bytes) ∧ d₂.openParent p = .ok () ∧
      p ≠ [] ∧ p.endsInSlash = false := by
  obtain ⟨entry, hstat, hparent, hslash, hfree, rfl⟩ := rename_eq_ok_iff.1 hrename
  have hentry : entry = .file bytes := Except.ok.inj (hstat.symm.trans (stat_of_write hwrite))
  refine ⟨by rw [hentry], hparent, ?_, hslash⟩
  rintro rfl
  exact hfree rfl

theorem read_of_saveWith_ok (h : d.saveWith m p bytes = (d', none)) : d'.read p = .ok bytes := by
  obtain ⟨d₁, d₂, -, hwrite, hrename⟩ := saveWith_eq_none h
  obtain ⟨rfl, hparent, hp, hslash⟩ := rename_of_write hwrite hrename
  have hagrees : AgreesOff [temporary p, p] d₂ ((d₂.drop (temporary p)).put p (.file bytes)) :=
    ((AgreesOff.drop _ _).mono (by simp)).trans ((AgreesOff.put _ _ _).mono (by simp))
  have hway : ∀ q ∈ [temporary p, p], ¬ q <+: p.parent.trimmed := by
    intro q hq
    refine not_prefix_parent p ?_
    simp only [List.mem_cons, List.not_mem_nil, or_false] at hq
    exact hq.imp_right fun h => ⟨h, hp, hslash⟩
  rw [read_eq_ok_iff, stat_eq_ok_iff hp hslash]
  exact ⟨hagrees.openParent hway hparent, lookup?_put_self hp⟩

end

/-! ## Saves that go through -/

/-- Beside a path there is room for the temporary file. -/
structure TemporaryFits (d : Disk) (p : Path) : Prop where
  name : Path.isLongName (temporaryName p) = false
  path : (temporary p).isLong = false
  free : d.lookup? (temporary p) ≠ some .directory

section
variable {d : Disk} {p : Path} {old : List UInt8}

theorem hasForbiddenName_temporary (hp : p ≠ []) (hs : p.endsInSlash = false)
    (h : p.hasForbiddenName = false) : (temporary p).hasForbiddenName = false := by
  have hnames := List.any_eq_false.1 h
  rw [Path.trimmed_of_endsInSlash_eq_false hs] at hnames
  obtain ⟨hsplit, -⟩ := Path.parent_append_baseName hp hs
  unfold Path.hasForbiddenName
  rw [Path.trimmed_of_endsInSlash_eq_false (endsInSlash_temporary p), temporary_eq,
    List.any_append, Bool.or_eq_false_iff, List.any_eq_false]
  refine ⟨fun n hn => hnames n (hsplit ▸ List.mem_append_left _ hn), ?_⟩
  have hmem : p.baseName ∈ p := by
    have : p.baseName ∈ p.parent ++ [p.baseName] := List.mem_append_right _ (.head _)
    rwa [hsplit] at this
  have hnull : (0 : CodeUnit) ∉ p.baseName := by
    have := hnames _ hmem
    simp only [Bool.or_eq_true, decide_eq_true_eq, List.contains_iff_mem, not_or] at this
    exact this.2
  have htemp : (0 : CodeUnit) ∉ temporaryName p := by
    simp only [temporaryName, List.cons_append, List.mem_cons, List.mem_append, not_or]
    exact ⟨by decide, hnull, by decide⟩
  simp [temporaryName_ne_nil, htemp]

theorem has_parent (h : d.openParent p = .ok ()) : d.has p.parent = true := by
  rw [has, (openParent_eq_ok_iff.1 h).2.1]
  rfl

theorem ne_temporary (hold : d.read p = .ok old) : p ≠ temporary p := by
  have h := temporary_ne_trimmed p
  rw [Path.trimmed_of_endsInSlash_eq_false (endsInSlash_of_read hold).2] at h
  exact h.symm

theorem openParent_temporary (hold : d.read p = .ok old) (h : d.TemporaryFits p) :
    d.openParent (temporary p) = .ok () := by
  obtain ⟨hp, hs⟩ := endsInSlash_of_read hold
  obtain ⟨hparent, -⟩ := (stat_eq_ok_iff hp hs).1 (read_eq_ok_iff.1 hold)
  obtain ⟨hfault, hdir, -⟩ := openParent_eq_ok_iff.1 hparent
  rw [Path.fault?_eq_none_iff] at hfault
  rw [openParent_eq_ok_iff, parent_temporary, baseName_temporary, Path.fault?_eq_none_iff]
  exact ⟨⟨hasForbiddenName_temporary hp hs hfault.1, h.path⟩, hdir, h.name⟩

theorem rename_temporary {d₁ : Disk} {bytes : List UInt8} (hold : d.read p = .ok old)
    (h : d.write (temporary p) bytes = .ok d₁) :
    ∃ d', d₁.rename (temporary p) p = .ok d' := by
  obtain ⟨hp, hs⟩ := endsInSlash_of_read hold
  obtain ⟨hparent, hlookup⟩ := (stat_eq_ok_iff hp hs).1 (read_eq_ok_iff.1 hold)
  have hagrees := write_agreesOff h
  have hway : ∀ q ∈ [temporary p], ¬ q <+: p.parent.trimmed := fun q hq =>
    not_prefix_parent p (.inl (List.mem_singleton.1 hq))
  refine ⟨_, rename_eq_ok_iff.2
    ⟨.file bytes, stat_of_write h, hagrees.openParent hway hparent, hs, ?_, rfl⟩⟩
  have hne : p ∉ [temporary p] := fun hmem => ne_temporary hold (List.mem_singleton.1 hmem)
  rw [hagrees.lookup? hne hlookup]
  exact nofun

theorem temporaryFits_of_saveWith {d' : Disk} {m : Mishaps} {bytes : List UInt8}
    (h : d.saveWith m p bytes = (d', none)) : d.TemporaryFits p := by
  obtain ⟨d₁, d₂, hd, hwrite, -⟩ := saveWith_eq_none h
  obtain ⟨hparent, -, hfree, -⟩ := write_eq_ok_iff.1 hwrite
  obtain ⟨hfault, -, hname⟩ := openParent_eq_ok_iff.1 hparent
  exact ⟨baseName_temporary p ▸ hname, (Path.fault?_eq_none_iff.1 hfault).2,
    fun hdir => hfree (hd.lookup? List.not_mem_nil hdir)⟩

/-- Over a file that is there, a save without mishaps goes through exactly if the temporary file
fits. -/
theorem saveWith_isNone_iff (hold : d.read p = .ok old) (bytes : List UInt8) :
    (d.saveWith {} p bytes).2 = none ↔ d.TemporaryFits p := by
  constructor
  · exact fun h => temporaryFits_of_saveWith (Prod.ext rfl h)
  · intro h
    have hopen := openParent_temporary hold h
    have hwrite : d.write (temporary p) bytes = .ok (d.put (temporary p) (.file bytes)) :=
      write_eq_ok_iff.2 ⟨hopen, endsInSlash_temporary p, h.free, rfl⟩
    obtain ⟨d', hrename⟩ := rename_temporary hold hwrite
    have hhas : d.has p.parent = true := parent_temporary p ▸ has_parent hopen
    simp [saveWith, saveSteps, hhas, tryWrite, hwrite, tryRename, hrename]

end

/-! ## Saving again -/

section
variable {d d' : Disk} {m : Mishaps} {p q : Path} {bytes : List UInt8}

theorem drop_put_of_ne (h : p ≠ q) (e : Entry) : (d.put p e).drop q = (d.drop q).put p e := by
  have hp : decide (p ≠ q) = true := decide_eq_true h
  simp only [put, drop, List.filter_cons, hp, if_pos, List.filter_filter, Bool.and_comm]

theorem drop_put_self (d : Disk) (p : Path) (e : Entry) : (d.put p e).drop p = d.drop p := by
  simp [put, drop]

theorem put_put (d : Disk) (p : Path) (e e' : Entry) : (d.put p e).put p e' = d.put p e' := by
  simp [put]

theorem drop_drop (d : Disk) (p : Path) : (d.drop p).drop p = d.drop p := by
  simp [drop]

/-- The disk with the directory of a path on it. -/
def withParent (d : Disk) (p : Path) : Disk :=
  if d.has p.parent then d else (d.tryMakeDirectories {} p.parent).1

/-- The disk with a file saved on it. -/
def saved (d : Disk) (p : Path) (bytes : List UInt8) : Disk :=
  ((d.withParent p).drop (temporary p)).put p (.file bytes)

theorem tryMakeDirectories_eq_none (h : d.tryMakeDirectories m p = (d', none)) :
    d' = (d.tryMakeDirectories {} p).1 := by
  unfold tryMakeDirectories at h ⊢
  cases hfault : p.fault? with
  | some e => simp [hfault] at h
  | none =>
    cases hmissing : d.missing [] p with
    | error e => simp [hfault, hmissing] at h
    | ok ps =>
      cases hm : m.makingDirectories with
      | some mishap => simp [hfault, hmissing, hm] at h
      | none =>
        simp only [hfault, hmissing, hm] at h
        exact (congrArg Prod.fst h).symm

/-- **A save that goes through** leaves the same disk on every machine. -/
theorem saveWith_eq_saved (h : d.saveWith m p bytes = (d', none)) : d' = d.saved p bytes := by
  have hsteps : d.saveSteps m p bytes = (d', none) := by
    unfold saveWith at h
    split at h
    · exact absurd rfl (cleanUp_cases h).1
    · rwa [← h]
  obtain ⟨made, hmade⟩ : ∃ made, made = if d.has p.parent then (d, none)
    else d.tryMakeDirectories m p.parent := ⟨_, rfl⟩
  unfold saveSteps at hsteps
  rw [← hmade] at hsteps
  rcases made with ⟨d₁, _ | e⟩
  · have hd₁ : d₁ = d.withParent p := by
      unfold withParent
      split at hmade
      · rename_i hhas
        rw [if_pos hhas]
        exact congrArg Prod.fst hmade
      · rename_i hhas
        rw [if_neg hhas]
        exact tryMakeDirectories_eq_none hmade.symm
    cases hw : d₁.tryWrite m (temporary p) bytes with
    | mk d₂ r₂ =>
      simp only [hw] at hsteps
      rcases tryWrite_cases hw with ⟨rfl, hwrite⟩ | ⟨e, rfl, -⟩
      · obtain ⟨hd', -⟩ := rename_of_write hwrite (tryRename_eq_none hsteps)
        obtain ⟨-, -, -, hd₂⟩ := write_eq_ok_iff.1 hwrite
        rw [hd', hd₂, drop_put_self, hd₁]
        rfl
      · cases hsteps
  · cases hsteps

theorem withParent_of_read (h : d.read p = .ok bytes) : d.withParent p = d := by
  obtain ⟨hp, hs⟩ := endsInSlash_of_read h
  obtain ⟨hopen, -⟩ := (stat_eq_ok_iff hp hs).1 (read_eq_ok_iff.1 h)
  exact if_pos (has_parent hopen)

/-- **Of two saves** that go through the second is all that counts. -/
theorem saved_of_saveWith (h : d.saveWith m p bytes = (d', none)) (bytes' : List UInt8) :
    d'.saved p bytes' = d.saved p bytes' := by
  have hread := read_of_saveWith_ok h
  rw [saved, withParent_of_read hread, saveWith_eq_saved h, saved,
    drop_put_of_ne (ne_temporary hread), drop_drop, put_put]
  rfl

theorem temporaryFits_after_saveWith (h : d.saveWith m p bytes = (d', none)) :
    d'.TemporaryFits p := by
  obtain ⟨hname, hpath, -⟩ := temporaryFits_of_saveWith h
  refine ⟨hname, hpath, fun hdir => ?_⟩
  have hne := ne_temporary (read_of_saveWith_ok h)
  rw [saveWith_eq_saved h, saved, lookup?_put_of_ne hne.symm,
    lookup?_drop_self _ (temporary_ne_nil p)] at hdir
  cases hdir

end

end Disk

end ModalEditor
