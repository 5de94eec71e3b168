import ModalEditor.Proofs.Disk.Saving
import ModalEditor.Proofs.Settings.Written
import ModalEditor.Settings.File

/-!
# Settings outlive any file

Settings are looked at one flag at a time (`Flag`). Whatever lies at the settings path is read as four
flags (`Settings.get_load`, `Settings.load_of_not_holdsSettings`), and what was saved is read back
(`Settings.load_of_saveWith`), so that an update is a change of what was read (`Settings.Updates`).
An update by the members of any object is this update where the members are those of a change
(`Settings.updates_iff_updateObject`).

Main statement: `Settings.outlive_any_file`. The disk after an update depends on the settings that were
saved and not on how they came about (`Disk.saved`); so updates are repeated without effect and may
change places if they have no flag in common.
-/

namespace ModalEditor

/-! ## Flags -/

/-- The flags of the settings. -/
inductive Flag where
  | viMode
  | blockCursor
  | autoIndent
  | lineStartOnQ
deriving DecidableEq, Repr

/-- The name under which a flag is stored. -/
def Flag.name : Flag → Text
  | .viMode => Text.ofString "viMode"
  | .blockCursor => Text.ofString "blockCursor"
  | .autoIndent => Text.ofString "autoIndent"
  | .lineStartOnQ => Text.ofString "lineStartOnQ"

namespace SettingsChange

/-- What a change makes of a flag, if it is about it. -/
def get? (c : SettingsChange) : Flag → Option Bool
  | .viMode => c.viMode
  | .blockCursor => c.blockCursor
  | .autoIndent => c.autoIndent
  | .lineStartOnQ => c.lineStartOnQ

/-- No flag is changed by both. -/
def Disjoint (c c' : SettingsChange) : Prop := ∀ f, c.get? f = none ∨ c'.get? f = none

end SettingsChange

namespace Settings

def get (s : Settings) : Flag → Bool
  | .viMode => s.viMode
  | .blockCursor => s.blockCursor
  | .autoIndent => s.autoIndent
  | .lineStartOnQ => s.lineStartOnQ

variable {s s' : Settings} {c c' : SettingsChange}

theorem eq_of_get (h : ∀ f, s.get f = s'.get f) : s = s' := by
  obtain ⟨viMode, blockCursor, autoIndent, lineStartOnQ⟩ := s
  obtain ⟨viMode', blockCursor', autoIndent', lineStartOnQ'⟩ := s'
  exact Settings.mk.injEq .. ▸ ⟨h .viMode, h .blockCursor, h .autoIndent, h .lineStartOnQ⟩

theorem get_apply (s : Settings) (c : SettingsChange) (f : Flag) :
    (s.apply c).get f = (c.get? f).getD (s.get f) := by
  cases f <;> rfl

theorem apply_apply_self (s : Settings) (c : SettingsChange) : (s.apply c).apply c = s.apply c := by
  refine eq_of_get fun f => ?_
  simp only [get_apply]
  cases c.get? f <;> rfl

theorem apply_comm (h : c.Disjoint c') (s : Settings) :
    (s.apply c).apply c' = (s.apply c').apply c := by
  refine eq_of_get fun f => ?_
  simp only [get_apply]
  rcases h f with hc | hc <;> rw [hc] <;> rfl

/-! ## Reading a content -/

/-- The value is an object with a numeric version, in which every flag that is present is a truth
value. -/
structure HoldsSettings (v : JsonValue) : Prop where
  object : ∃ members, v = .object members
  version : ∃ literal, v.member? (Text.ofString "version") = some (.number literal)
  flags : ∀ (f : Flag) (x : JsonValue), v.member? f.name = some x → ∃ b, x = .bool b

theorem isFlag_iff {x : JsonValue} : isFlag x = true ↔ ∃ b, x = .bool b := by
  cases x <;> simp [isFlag]

theorem isNumber_iff {x : JsonValue} : isNumber x = true ↔ ∃ literal, x = .number literal := by
  cases x <;> simp [isNumber]

theorem mem_flagNames {name : Text} : name ∈ flagNames ↔ ∃ f : Flag, name = f.name := by
  constructor
  · intro h
    simp only [flagNames, List.mem_cons, List.not_mem_nil, or_false] at h
    obtain h | h | h | h := h
    · exact ⟨.viMode, h⟩
    · exact ⟨.blockCursor, h⟩
    · exact ⟨.autoIndent, h⟩
    · exact ⟨.lineStartOnQ, h⟩
  · rintro ⟨f, rfl⟩
    cases f <;> simp [flagNames, Flag.name]

/-- **The check of a content** asks for an object that holds settings. -/
theorem isStored_iff {v : JsonValue} : isStored v = true ↔ HoldsSettings v := by
  rw [isStored, Bool.and_eq_true, Option.any_eq_true, List.all_eq_true]
  constructor
  · rintro ⟨⟨x, hx, hnumber⟩, hflags⟩
    obtain ⟨literal, rfl⟩ := isNumber_iff.1 hnumber
    refine ⟨?_, ⟨literal, hx⟩, fun f y hy => ?_⟩
    · cases v with
      | object members => exact ⟨members, rfl⟩
      | _ => cases hx
    · have hall := hflags f.name (mem_flagNames.2 ⟨f, rfl⟩)
      rw [hy] at hall
      exact isFlag_iff.1 hall
  · rintro ⟨-, ⟨literal, hversion⟩, hflags⟩
    refine ⟨⟨_, hversion, rfl⟩, fun name hname => ?_⟩
    obtain ⟨f, rfl⟩ := mem_flagNames.1 hname
    cases hf : v.member? f.name with
    | none => rfl
    | some y => exact isFlag_iff.2 (hflags f y hf)

theorem get_ofStored (v : JsonValue) (f : Flag) : (ofStored v).get f =
    match v.member? f.name with
    | some (.bool b) => b
    | _ => ({} : Settings).get f := by
  cases f <;> rfl

variable {d d' : Disk} {m m' : Mishaps} {p : Path}

/-- The value at a path, if something can be read there and is JSON. -/
def content? (d : Disk) (p : Path) : Option JsonValue :=
  (d.read p.onDisk).toOption.bind fun bytes => JsonValue.parse? (Utf8.decode bytes)

/-- What is found at a path: settings, or the defaults. -/
theorem load_eq (d : Disk) (p : Path) : (load d p).1 =
    match content? d p with
    | none => {}
    | some v => if isStored v then ofStored v else {} := by
  unfold load content?
  cases hread : d.read p.onDisk with
  | error e =>
    dsimp only
    split <;> rfl
  | ok bytes =>
    rw [if_pos (Disk.has_of_read hread)]
    dsimp only [Except.toOption, Option.bind, ofContent]
    cases JsonValue.parse? (Utf8.decode bytes) with
    | none => rfl
    | some v =>
      dsimp only
      split <;> rfl

/-- **A content that holds settings** gives each flag its own value, or its default. -/
theorem get_load {v : JsonValue} (hcontent : content? d p = some v) (hv : HoldsSettings v) (f : Flag) :
    (∀ b, v.member? f.name = some (.bool b) → (load d p).1.get f = b) ∧
      (v.member? f.name = none → (load d p).1.get f = ({} : Settings).get f) := by
  have hload : (load d p).1.get f = (ofStored v).get f := by
    rw [load_eq, hcontent]
    dsimp only
    rw [if_pos (isStored_iff.2 hv)]
  rw [hload, get_ofStored]
  exact ⟨fun b hb => by rw [hb], fun hnone => by rw [hnone]⟩

/-- The object of the settings that are read is the content with its flags completed. -/
theorem completed_of_holdsSettings {v : JsonValue} (hcontent : content? d p = some v)
    (hv : HoldsSettings v) : completed v = (load d p).1.toMembers := by
  have hstored := isStored_iff.2 hv
  rw [completed_of_isStored hstored, load_eq, hcontent]
  dsimp only
  rw [if_pos hstored]

/-- **Anything else** gives the defaults. -/
theorem load_of_not_holdsSettings (h : ∀ v, content? d p = some v → ¬ HoldsSettings v) :
    (load d p).1 = {} := by
  rw [load_eq]
  cases hcontent : content? d p with
  | none => rfl
  | some v => exact if_neg fun hv => h v hcontent (isStored_iff.1 hv)

/-! ## Reading back -/

theorem isWritten_toStored (s : Settings) : s.toStored.IsWritten := by
  have hversion : (JsonValue.number (Text.ofNat version)).IsWritten := by
    rw [JsonValue.IsWritten]
    decide
  rw [toStored_eq]
  exact ⟨hversion, trivial, trivial, trivial, trivial, trivial⟩

theorem isStored_toStored (s : Settings) : isStored s.toStored = true := rfl

theorem parse?_toText (s : Settings) : JsonValue.parse? s.toText = some s.toStored :=
  JsonValue.parse?_toText (isWritten_toStored s)

theorem wellFormed_toText (s : Settings) : s.toText.wellFormed = true := by
  have hall : ∀ viMode blockCursor autoIndent lineStartOnQ : Bool,
      Text.wellFormed (toText { viMode, blockCursor, autoIndent, lineStartOnQ }) = true := by
    decide
  exact hall s.viMode s.blockCursor s.autoIndent s.lineStartOnQ

/-- **What was saved is read back**, and there is nothing to log. -/
theorem load_of_saveWith {s : Settings} (h : saveWith d m p s = (d', none)) : load d' p = (s, []) := by
  have hread : d'.read p.onDisk = .ok (Utf8.encode s.toText) := Disk.read_of_saveWith_ok h
  unfold load
  rw [if_pos (Disk.has_of_read hread), hread]
  dsimp only [ofContent]
  rw [Utf8.decode_encode s.wellFormed_toText, parse?_toText]
  dsimp only
  rw [if_pos (isStored_toStored s), ofStored_toStored]

/-! ## Updates -/

/-- On a machine with some mishaps or none, an update of the settings at `p` goes through; it has the
value `s` and leaves the disk `d'`. -/
def Updates (p : Path) (c : SettingsChange) (d : Disk) (s : Settings) (d' : Disk) : Prop :=
  ∃ m, (updateWith d m p c).outcome = .ok s ∧ (updateWith d m p c).disk = d'

theorem updates_iff {s : Settings} : Updates p c d s d' ↔
    s = (load d p).1.apply c ∧ ∃ m, saveWith d m p s = (d', none) := by
  have hupdate : ∀ m, (updateWith d m p c).outcome = .ok s ∧ (updateWith d m p c).disk = d' ↔
      s = (load d p).1.apply c ∧ saveWith d m p ((load d p).1.apply c) = (d', none) := fun m => by
    unfold updateWith Update.of
    dsimp only
    rcases saveWith d m p ((load d p).1.apply c) with ⟨d₁, _ | e⟩
    · simp [eq_comm]
    · simp
  constructor
  · rintro ⟨m, hm⟩
    obtain ⟨rfl, hsave⟩ := (hupdate m).1 hm
    exact ⟨rfl, m, hsave⟩
  · rintro ⟨rfl, m, hsave⟩
    exact ⟨m, (hupdate m).2 ⟨rfl, hsave⟩⟩

/-- **An update of an object** by the members of a change is the update of the settings: it goes
through with it, has the same settings and leaves the same disk. -/
theorem updates_iff_updateObject {s : Settings} : Updates p c d s d' ↔
    ∃ m v, (updateObject d m p (changeMembers c)).outcome = .ok v ∧ ofStored v = s ∧
      (updateObject d m p (changeMembers c)).disk = d' := by
  unfold Updates
  refine exists_congr fun m => ?_
  unfold updateWith updateObject Update.of
  dsimp only
  rw [saveObject_append]
  rcases saveWith d m p ((load d p).1.apply c) with ⟨d₁, _ | e⟩
  · simp [ofStored_append]
  · simp

namespace Updates

variable {s s' : Settings} {d'' : Disk}

theorem eq_apply (h : Updates p c d s d') : s = (load d p).1.apply c := (updates_iff.1 h).1

theorem load (h : Updates p c d s d') : load d' p = (s, []) := by
  obtain ⟨-, m, hsave⟩ := updates_iff.1 h
  exact load_of_saveWith hsave

theorem disk (h : Updates p c d s d') : d' = d.saved p.onDisk (Utf8.encode s.toText) := by
  obtain ⟨-, m, hsave⟩ := updates_iff.1 h
  exact Disk.saveWith_eq_saved hsave

/-- After two updates, the settings of the second alone. -/
theorem disk_of_two (h : Updates p c d s d') (h' : Updates p c' d' s' d'') :
    d'' = d.saved p.onDisk (Utf8.encode s'.toText) := by
  obtain ⟨-, m, hsave⟩ := updates_iff.1 h
  rw [h'.disk]
  exact Disk.saved_of_saveWith hsave _

/-- **An update repeated** goes through where nothing else fails, and changes nothing. -/
theorem again (h : Updates p c d s d') :
    Updates p c d' s d' ∧ ∀ s' d'', Updates p c d' s' d'' → s' = s ∧ d'' = d' := by
  have hsame : (Settings.load d' p).1.apply c = s := by
    rw [h.load, h.eq_apply]
    exact apply_apply_self _ c
  have honly : ∀ s' d'', Updates p c d' s' d'' → s' = s ∧ d'' = d' := fun s' d'' h' => by
    have hs : s' = s := h'.eq_apply.trans hsame
    exact ⟨hs, by rw [h.disk_of_two h', hs, ← h.disk]⟩
  refine ⟨?_, honly⟩
  obtain ⟨-, m, hsave⟩ := updates_iff.1 h
  have hnone : (saveWith d' {} p s).2 = none :=
    (Disk.saveWith_isNone_iff (Disk.read_of_saveWith_ok hsave) _).2
      (Disk.temporaryFits_after_saveWith hsave)
  have hagain : Updates p c d' s (saveWith d' {} p s).1 :=
    updates_iff.2 ⟨hsame.symm, {}, Prod.ext rfl hnone⟩
  obtain ⟨-, hdisk⟩ := honly s _ hagain
  rwa [hdisk] at hagain

/-- **Updates without a common flag** may change places. -/
theorem comm {s₁ s₂ t₁ t₂ : Settings} {d₁ d₂ e₁ e₂ : Disk} (hc : c.Disjoint c')
    (h₁ : Updates p c d s₁ d₁) (h₂ : Updates p c' d₁ s₂ d₂) (h₁' : Updates p c' d t₁ e₁)
    (h₂' : Updates p c e₁ t₂ e₂) : s₂ = t₂ ∧ d₂ = e₂ := by
  have hs : s₂ = t₂ := by
    rw [h₂.eq_apply, h₁.load, h₁.eq_apply, h₂'.eq_apply, h₁'.load, h₁'.eq_apply]
    exact apply_comm hc _
  refine ⟨hs, ?_⟩
  rw [h₁.disk_of_two h₂, h₁'.disk_of_two h₂', hs]

end Updates

/-- **Settings outlive any file.** Whatever lies at the settings path, four flags are read: those of a
content that holds settings, each with its default where it is missing, and otherwise the defaults.
An update that goes through overrides what was read by its change, and that is read from then on;
repeated, it changes nothing. Updates without a common flag come to the same in either order. -/
theorem outlive_any_file (d : Disk) (p : Path) :
    ((∀ v, content? d p = some v → HoldsSettings v → ∀ f,
        (∀ b, v.member? f.name = some (.bool b) → (load d p).1.get f = b) ∧
          (v.member? f.name = none → (load d p).1.get f = ({} : Settings).get f)) ∧
      ((∀ v, content? d p = some v → ¬ HoldsSettings v) → (load d p).1 = {})) ∧
    (∀ c s d', Updates p c d s d' →
      (∀ f, s.get f = (c.get? f).getD ((load d p).1.get f)) ∧ load d' p = (s, []) ∧
        Updates p c d' s d' ∧ ∀ s' d'', Updates p c d' s' d'' → s' = s ∧ d'' = d') ∧
    ∀ c c', c.Disjoint c' → ∀ s₁ d₁ s₂ d₂ t₁ e₁ t₂ e₂, Updates p c d s₁ d₁ → Updates p c' d₁ s₂ d₂ →
      Updates p c' d t₁ e₁ → Updates p c e₁ t₂ e₂ → s₂ = t₂ ∧ d₂ = e₂ := by
  refine ⟨⟨fun v hcontent hv => get_load hcontent hv, load_of_not_holdsSettings⟩, ?_, ?_⟩
  · intro c s d' h
    refine ⟨fun f => ?_, h.load, h.again⟩
    rw [h.eq_apply, get_apply]
  · intro c c' hc s₁ d₁ s₂ d₂ t₁ e₁ t₂ e₂ h₁ h₂ h₁' h₂'
    exact h₁.comm hc h₂ h₁' h₂'

/-- A file of another version, with one flag and a member that is none, and then two updates, one of
them of the flag that is in the file. -/
theorem outlive_any_file_of_other_version :
    let p : Path := [Text.ofString "s"]
    let content := Text.ofString "\x7b\"version\":2,\"viMode\":true,\"theme\":0\x7d"
    let d : Disk := ⟨[(p, .file (Utf8.encode content))]⟩
    let c : SettingsChange := { blockCursor := some false }
    let c' : SettingsChange := { viMode := some false, lineStartOnQ := some true }
    (∃ v, content? d p = some v ∧ HoldsSettings v) ∧ c.Disjoint c' ∧
      (load d p).1.get .viMode = true ∧ (load d p).1.get .blockCursor = true ∧
      ∃ s₁ d₁ s₂ d₂ t₁ e₁ t₂ e₂, Updates p c d s₁ d₁ ∧ Updates p c' d₁ s₂ d₂ ∧ Updates p c' d t₁ e₁ ∧
        Updates p c e₁ t₂ e₂ ∧ s₂ = t₂ ∧ d₂ = e₂ ∧ load d₂ p = (s₂, []) ∧
        s₂ = { viMode := false, blockCursor := false, autoIndent := true, lineStartOnQ := true } := by
  intro p content d c c'
  obtain ⟨⟨hload, -⟩, -, hcomm⟩ := outlive_any_file d p
  have hcontent : (content? d p).any (fun v => isStored v && flag v "viMode" false &&
      (v.member? Flag.blockCursor.name).isNone) = true := by decide +kernel
  obtain ⟨v, hv, hread⟩ := (Option.any_eq_true _ _).1 hcontent
  rw [Bool.and_eq_true, Bool.and_eq_true] at hread
  obtain ⟨⟨hstored, htrue⟩, hnone⟩ := hread
  have hflag : v.member? Flag.viMode.name = some (.bool true) := by
    unfold flag at htrue
    split at htrue
    · rename_i b hb
      rwa [htrue] at hb
    · cases htrue
  have hdisjoint : c.Disjoint c' := fun f => by cases f <;> simp [SettingsChange.get?, c, c']
  have hupdate : ∀ (d : Disk) (c : SettingsChange) (s : Settings),
      (updateWith d {} p c).outcome.toOption = some s →
        Updates p c d s (updateWith d {} p c).disk := fun d c s h => by
    refine ⟨{}, ?_, rfl⟩
    cases hs : (updateWith d {} p c).outcome with
    | error e => simp [hs, Except.toOption] at h
    | ok s' => rw [hs] at h; exact congrArg _ (Option.some.inj h)
  have h₁ := hupdate d c { viMode := true, blockCursor := false } (by decide +kernel)
  have h₂ := hupdate _ c' { blockCursor := false, lineStartOnQ := true }
    (by decide +kernel : (updateWith (updateWith d {} p c).disk {} p c').outcome.toOption = _)
  have h₁' := hupdate d c' { lineStartOnQ := true } (by decide +kernel)
  have h₂' := hupdate _ c { blockCursor := false, lineStartOnQ := true }
    (by decide +kernel : (updateWith (updateWith d {} p c').disk {} p c).outcome.toOption = _)
  obtain ⟨hs, hd⟩ := hcomm c c' hdisjoint _ _ _ _ _ _ _ _ h₁ h₂ h₁' h₂'
  exact ⟨⟨v, hv, isStored_iff.1 hstored⟩, hdisjoint,
    (hload v hv (isStored_iff.1 hstored) .viMode).1 true hflag,
    (hload v hv (isStored_iff.1 hstored) .blockCursor).2 (Option.isNone_iff_eq_none.1 hnone),
    _, _, _, _, _, _, _, _, h₁, h₂, h₁', h₂', hs, hd, h₂.load, rfl⟩

end Settings

end ModalEditor
