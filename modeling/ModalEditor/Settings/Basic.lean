import ModalEditor.Settings.JsonText

/-!
# Settings

The editor's preferences and their stored form: an object with a numeric version and flags, each of
which may be missing and then has its default.
-/

namespace ModalEditor

/-- The editor's preferences. -/
structure Settings where
  viMode : Bool := false
  blockCursor : Bool := true
  autoIndent : Bool := true
  lineStartOnQ : Bool := false
deriving DecidableEq, Repr

/-- Some preferences to be changed. -/
structure SettingsChange where
  viMode : Option Bool := none
  blockCursor : Option Bool := none
  autoIndent : Option Bool := none
  lineStartOnQ : Option Bool := none
deriving DecidableEq, Repr

namespace Settings

/-- The version in which settings are stored. -/
def version : Nat := 1

/-- The names of the flags, in the order in which they are stored. -/
def flagNames : List Text :=
  [Text.ofString "viMode", Text.ofString "blockCursor", Text.ofString "autoIndent",
    Text.ofString "lineStartOnQ"]

/-- The settings after a change. -/
def apply (s : Settings) (c : SettingsChange) : Settings where
  viMode := c.viMode.getD s.viMode
  blockCursor := c.blockCursor.getD s.blockCursor
  autoIndent := c.autoIndent.getD s.autoIndent
  lineStartOnQ := c.lineStartOnQ.getD s.lineStartOnQ

/-! ## The stored form -/

/-- A number. -/
def isNumber : JsonValue → Bool
  | .number _ => true
  | _ => false

/-- A truth value. -/
def isFlag : JsonValue → Bool
  | .bool _ => true
  | _ => false

/-- A value that can be read as settings: an object with a numeric version, in which every flag that
is present is a truth value. -/
def isStored (v : JsonValue) : Bool :=
  (v.member? (Text.ofString "version")).any isNumber &&
    flagNames.all fun name => (v.member? name).all isFlag

/-- A flag of the stored form, or its default. -/
def flag (v : JsonValue) (name : String) (default : Bool) : Bool :=
  match v.member? (Text.ofString name) with
  | some (.bool b) => b
  | _ => default

/-- The settings a stored form holds; a missing flag has its default. -/
def ofStored (v : JsonValue) : Settings :=
  let d : Settings := {}
  { viMode := flag v "viMode" d.viMode
    blockCursor := flag v "blockCursor" d.blockCursor
    autoIndent := flag v "autoIndent" d.autoIndent
    lineStartOnQ := flag v "lineStartOnQ" d.lineStartOnQ }

/-- The flags as members of an object. -/
def toMembers (s : Settings) : List (Text × JsonValue) :=
  flagNames.zip [.bool s.viMode, .bool s.blockCursor, .bool s.autoIndent, .bool s.lineStartOnQ]

/-- The flags of a change as members of an object. -/
def changeMembers (c : SettingsChange) : List (Text × JsonValue) :=
  (flagNames.zip [c.viMode, c.blockCursor, c.autoIndent, c.lineStartOnQ]).filterMap
    fun (name, flag) => flag.map fun b => (name, .bool b)

/-- The flags of an object, whatever their values; one that is missing or null has its default. -/
def completed (v : JsonValue) : List (Text × JsonValue) :=
  ({} : Settings).toMembers.map fun (name, default) =>
    match v.member? name with
    | none | some .null => (name, default)
    | some value => (name, value)

/-- The stored form of an object: the version, and the flags the object has. -/
def stored (v : JsonValue) : JsonValue :=
  .object ((Text.ofString "version", .number (Text.ofNat version)) ::
    flagNames.filterMap fun name => (v.member? name).map (name, ·))

/-- The stored form of settings. -/
def toStored (s : Settings) : JsonValue := stored (.object s.toMembers)

/-- The written form of settings: the version and the flags, a line each. -/
def toText (s : Settings) : Text := s.toStored.toText

/-- The stored form of settings has the version and every flag. -/
theorem toStored_eq (s : Settings) :
    s.toStored = .object ((Text.ofString "version", .number (Text.ofNat version)) :: s.toMembers) :=
  rfl

/-- What is read from the stored form is what was stored. -/
theorem ofStored_toStored (s : Settings) : ofStored s.toStored = s := rfl

/-- Of two members of one name the later one is found. -/
theorem member?_append (first second : List (Text × JsonValue)) (name : Text) :
    (JsonValue.object (first ++ second)).member? name
      = ((JsonValue.object second).member? name).or ((JsonValue.object first).member? name) := by
  simp only [JsonValue.member?, List.reverse_append, List.lookup_append]

theorem member?_toMembers (s : Settings) :
    flagNames.map (JsonValue.object s.toMembers).member?
      = [some (.bool s.viMode), some (.bool s.blockCursor), some (.bool s.autoIndent),
        some (.bool s.lineStartOnQ)] :=
  rfl

theorem member?_changeMembers (c : SettingsChange) :
    flagNames.map (JsonValue.object (changeMembers c)).member?
      = [c.viMode.map .bool, c.blockCursor.map .bool, c.autoIndent.map .bool,
        c.lineStartOnQ.map .bool] := by
  obtain ⟨viMode, blockCursor, autoIndent, lineStartOnQ⟩ := c
  cases viMode <;> cases blockCursor <;> cases autoIndent <;> cases lineStartOnQ <;> rfl

/-- Members of a change that follow those of settings override them. -/
theorem stored_append (s : Settings) (c : SettingsChange) :
    stored (.object (s.toMembers ++ changeMembers c)) = (s.apply c).toStored := by
  have hs := member?_toMembers s
  have hc := member?_changeMembers c
  simp only [flagNames, List.map_cons, List.map_nil, List.cons.injEq] at hs hc
  obtain ⟨hs1, hs2, hs3, hs4, -⟩ := hs
  obtain ⟨hc1, hc2, hc3, hc4, -⟩ := hc
  have get (o : Option Bool) (b : Bool) :
      (o.map JsonValue.bool).or (some (.bool b)) = some (.bool (o.getD b)) := by
    cases o <;> rfl
  simp only [stored, flagNames, List.filterMap_cons, member?_append, hs1, hs2, hs3, hs4, hc1, hc2,
    hc3, hc4, get, Option.map_some, List.filterMap_nil]
  rfl

/-- They are read so as well. -/
theorem ofStored_append (s : Settings) (c : SettingsChange) :
    ofStored (.object (s.toMembers ++ changeMembers c)) = s.apply c := by
  obtain ⟨viMode, blockCursor, autoIndent, lineStartOnQ⟩ := c
  cases viMode <;> cases blockCursor <;> cases autoIndent <;> cases lineStartOnQ <;> rfl

/-- In a value that can be read as settings, completing the flags and reading them is the same. -/
theorem completed_of_isStored {v : JsonValue} (h : isStored v = true) :
    completed v = (ofStored v).toMembers := by
  have flag_of (name : String) (default : Bool)
      (hf : (v.member? (Text.ofString name)).all isFlag = true) :
      (match v.member? (Text.ofString name) with
        | none | some .null => (Text.ofString name, JsonValue.bool default)
        | some value => (Text.ofString name, value))
        = (Text.ofString name, .bool (flag v name default)) := by
    unfold flag
    split <;> simp_all [isFlag]
    rename_i value _ _
    cases value <;> simp_all
  simp only [isStored, flagNames, List.all_cons, List.all_nil, Bool.and_eq_true] at h
  obtain ⟨_, h1, h2, h3, h4, _⟩ := h
  simp only [completed, toMembers, flagNames, List.zip_cons_cons, List.zip_nil_right, List.map_cons,
    List.map_nil, flag_of _ _ h1, flag_of _ _ h2, flag_of _ _ h3, flag_of _ _ h4]
  rfl

end Settings

end ModalEditor
