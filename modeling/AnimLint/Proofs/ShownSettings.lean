/-
AnimLint/Proofs/ShownSettings.lean

The settings that are shown are the settings that are loaded.  An object that
holds some fields of settings, each once and in any order, is read as settings
that have these fields and the defaults for the others; the object that the
service shows and the one that settings are written as hold all of them.  So
either text, written to a settings file at whatever level of indentation it
stands, gives the same settings again.

Main results: `Settings.read_fields`, `Settings.read_toJson`,
`Settings.read_shown`, `shown_settings_load`.
-/
import AnimLint.Proofs.JsonText
import AnimLint.Proofs.WriteRead
import AnimLint.Service.Tools

namespace AnimLint

namespace Settings

open Json

/-! ### Fields -/

/-- The value of a field. -/
def value (settings : Settings) : Field → Json
  | .includes => .strings settings.includes
  | .ignores => .strings settings.ignores
  | .ignoreTestFiles => .bool settings.ignoreTestFiles
  | .keywords => .strings settings.keywords
  | .excludes => .strings settings.excludes

/-- Settings with one field as in others. -/
def takeField (others settings : Settings) : Field → Settings
  | .includes => { settings with includes := others.includes }
  | .ignores => { settings with ignores := others.ignores }
  | .ignoreTestFiles => { settings with ignoreTestFiles := others.ignoreTestFiles }
  | .keywords => { settings with keywords := others.keywords }
  | .excludes => { settings with excludes := others.excludes }

/-- Settings as an object with some of their fields. -/
def object (settings : Settings) (fields : List Field) : Json :=
  .object (fields.map fun field => (field.name, settings.value field))

theorem toJson_eq_object (settings : Settings) :
    settings.toJson = settings.object Field.all := rfl

/-- What is shown of settings are all their fields, under the names that they
are read by. -/
theorem item_eq_object (settings : Settings) :
    (Service.ShownSettings.ofSettings settings).item = settings.object Field.all := rfl

/-- Settings with all fields as in others are the others. -/
theorem foldl_takeField_all (others settings : Settings) :
    Field.all.foldl others.takeField settings = others := rfl

theorem ofName_name (field : Field) : Field.ofName? field.name = some field := by
  cases field <;> rfl

/-! ### Reading the fields -/

/-- The value of a field is read back. -/
theorem readField_value (others settings : Settings) (field : Field) (level : Nat)
    (rest : List Char) :
    settings.readField field (' ' :: (renderAt level (others.value field) ++ rest)) =
      .ok (others.takeField settings field, rest) := by
  cases field with
  | ignoreTestFiles =>
    exact congrArg (Except.map _) (readBool_render level others.ignoreTestFiles rest)
  | includes =>
    exact congrArg (Except.map _) (readList_strings level others.includes rest)
  | ignores => exact congrArg (Except.map _) (readList_strings level others.ignores rest)
  | keywords =>
    exact congrArg (Except.map _) (readList_strings level others.keywords rest)
  | excludes =>
    exact congrArg (Except.map _) (readList_strings level others.excludes rest)

/-- A field that comes for the first time is set. -/
theorem readKey_field (others : Settings) {draft : Draft} {field : Field}
    (hnew : field ∉ draft.seen) (level : Nat) (rest : List Char) :
    draft.readKey field.name.toList
      (':' :: ' ' :: (renderAt level (others.value field) ++ rest)) =
      .ok (⟨others.takeField draft.settings field, field :: draft.seen⟩, rest) := by
  have hfield : Field.ofName? (String.ofList field.name.toList) = some field := by
    rw [String.ofList_toList, ofName_name]
  have hseen : draft.seen.contains field = false := by
    rw [← Bool.not_eq_true, List.contains_iff_mem]
    exact hnew
  have hvalue : (do
      let after ← draft.settings.readField field
          (' ' :: (renderAt level (others.value field) ++ rest))
      return (Draft.mk after.1 (field :: draft.seen), after.2)) =
      Except.ok (⟨others.takeField draft.settings field, field :: draft.seen⟩, rest) := by
    rw [readField_value]
    rfl
  unfold Draft.readKey
  simp only [hfield, hseen]
  exact hvalue

/-- Fields that come once each are set one after another. -/
theorem fills_fields (others : Settings) (level : Nat) {fields : List Field}
    (hfields : fields.Nodup)
    {draft : Draft} (hnew : ∀ field ∈ fields, field ∉ draft.seen) :
    ∃ seen, Fills Draft.readKey level draft
      (fields.map fun field => (field.name, others.value field))
      ⟨fields.foldl others.takeField draft.settings, seen⟩ := by
  induction fields generalizing draft with
  | nil => exact ⟨draft.seen, .nil⟩
  | cons field fields ih =>
    obtain ⟨hfield, hfields⟩ := List.nodup_cons.1 hfields
    have hnext : ∀ other ∈ fields, other ∉ field :: draft.seen := by
      intro other hother hseen
      rcases List.mem_cons.1 hseen with rfl | hseen
      · exact hfield hother
      · exact hnew other (List.mem_cons_of_mem field hother) hseen
    obtain ⟨seen, hfills⟩ :=
      @ih hfields ⟨others.takeField draft.settings field, field :: draft.seen⟩ hnext
    exact ⟨seen,
      .cons (readKey_field others (hnew field List.mem_cons_self) level) hfills⟩

/-- **Settings are read from their fields**: those that the object holds are as
they were, and the others are the defaults. -/
theorem read_fields (settings : Settings) {fields : List Field}
    (hfields : fields.Nodup) (level : Nat) :
    read (renderAt level (settings.object fields)) =
      .ok (fields.foldl settings.takeField default) := by
  obtain ⟨seen, hfills⟩ :=
    @fills_fields settings (level + 1) fields hfields ⟨default, []⟩ fun _ _ =>
      List.not_mem_nil
  obtain ⟨s, hs, hread⟩ := readFields_object hfills []
  have hfrom : readFrom (renderAt level (settings.object fields)) =
      .ok (fields.foldl settings.takeField default, []) := by
    rw [object, ← List.append_nil (renderAt level _), hs, readFrom, skipBlanks_cons rfl]
    simp only [hread]
    rfl
  rw [read, hfrom]
  rfl

/-- Settings are read from what they are written as. -/
theorem read_toJson (settings : Settings) (level : Nat) :
    read (renderAt level settings.toJson) = .ok settings := by
  rw [toJson_eq_object, read_fields settings (by decide), foldl_takeField_all]

/-- Settings are read from what is shown of them. -/
theorem read_shown (settings : Settings) (level : Nat) :
    read (renderAt level (Service.ShownSettings.ofSettings settings).item) =
      .ok settings := by
  rw [item_eq_object, read_fields settings (by decide), foldl_takeField_all]

end Settings

/-! ### Loading -/

open Files

/-- The settings file of a directory comes before those above it. -/
theorem findSettings_of_has {fs : FileSystem} {directory : String}
    (h : fs.has (join directory settingsFile) = true) :
    findSettings fs directory = some (join directory settingsFile) := by
  have hfirst : ∃ above, upwards directory.length directory = directory :: above := by
    rcases directory.length with - | n
    · exact ⟨[], rfl⟩
    · rw [upwards]
      split
      · exact ⟨[], rfl⟩
      · exact ⟨_, rfl⟩
  obtain ⟨above, habove⟩ := hfirst
  rw [findSettings, habove, firstSettings, if_pos h]

/-- A text that makes valid settings gives them if the settings file of a
directory holds it. -/
theorem loadSettings_of_readText {fs : FileSystem} {directory : String} {text : List Char}
    {settings : Settings} (htext : fs.readText (join directory settingsFile) = .ok text)
    (hread : Settings.read text = .ok settings) (hvalid : settings.invalid? = none) :
    loadSettings fs directory = .ok ⟨settings, true⟩ := by
  have hhas : fs.has (join directory settingsFile) = true := by
    rw [FileSystem.has]
    rcases hnode : fs.node (join directory settingsFile) with e | node
    · rw [FileSystem.readText, hnode] at htext
      cases htext
    · rfl
  rw [loadSettings, findSettings_of_has hhas]
  simp only [readSettings, htext, hread, hvalid]

/-- The text of an answer that shows settings: the object for them stands at the
first level. -/
theorem render_settingsAnswer (loaded : Loaded) :
    (Service.settingsAnswer loaded).render = String.ofList
      ("\x7b\n  \"fromFile\": ".toList ++ (Json.renderAt 1 (.bool loaded.fromFile) ++
        (",\n  \"config\": ".toList ++
          (Json.renderAt 1
            (Service.ShownSettings.ofSettings loaded.settings).item ++
            "\n\x7d".toList)))) := by
  simp only [Json.render, Service.settingsAnswer, Json.renderAt, Json.renderFields,
    List.append_assoc, List.cons_append, List.append_nil]
  rfl

/-- **The settings that are shown are the settings that are loaded.**  Where
valid settings hold, the service shows them as an object; this object and the
one that the settings are written as give the same settings again if either is
written to the settings file of a directory and loaded from there, at whatever
level of indentation it stands and whatever characters the settings have. -/
theorem shown_settings_load {settings : Settings} (hvalid : settings.invalid? = none) :
    (∀ (fs : FileSystem) (parameters : Json) (root : String) (fromFile : Bool),
      Service.RootParameters.read "GetConfigParams" parameters = .ok ⟨root⟩ →
      loadSettings fs root = .ok ⟨settings, fromFile⟩ →
      ∃ answer, (Service.getConfig fs parameters).result = .ok answer ∧
        answer.render.toList =
          "\x7b\n  \"fromFile\": ".toList ++ (Json.renderAt 1 (.bool fromFile) ++
            (",\n  \"config\": ".toList ++
              (Json.renderAt 1 (Service.ShownSettings.ofSettings settings).item ++
                "\n\x7d".toList)))) ∧
    ∀ (level : Nat), ∀ object ∈ [(Service.ShownSettings.ofSettings settings).item,
      settings.toJson],
      ∀ (fs fs' : FileSystem) (directory : String), fs.hasDirectory "." = true →
        fs.write (join directory settingsFile)
          (.text (Json.renderAt level object)) = .ok fs' →
        loadSettings fs' directory = .ok ⟨settings, true⟩ := by
  constructor
  · intro fs parameters root fromFile hroot hload
    refine ⟨Service.settingsAnswer ⟨settings, fromFile⟩, ?_, ?_⟩
    · rw [Service.getConfig, hroot]
      simp only [hload]
    · rw [render_settingsAnswer, String.toList_ofList]
  · intro level object hobject fs fs' directory hcurrent hwrite
    have hread : Settings.read (Json.renderAt level object) = .ok settings := by
      rcases List.mem_cons.1 hobject with rfl | hobject
      · exact settings.read_shown level
      · rw [List.mem_singleton.1 hobject]
        exact settings.read_toJson level
    exact loadSettings_of_readText
      (FileSystem.readText_write hcurrent hwrite) hread hvalid

/-- Settings with quotes, backslashes, control characters and characters of
several bytes are shown, and come back when what is shown of them is written
down and loaded. -/
theorem shown_settings_load_escaped :
    let settings : Settings :=
      ⟨["src/*"], ["a\"b\\c", "tab\there\nand\x01", "é/😀"], true, [".to"], []⟩
    let shown := Json.renderAt 1 (Service.ShownSettings.ofSettings settings).item
    let fs : FileSystem := ⟨.empty, []⟩
    settings.invalid? = none ∧
      ∃ fs', fs.write (join "." settingsFile) (.text shown) = .ok fs' ∧
        loadSettings fs' "." = .ok ⟨settings, true⟩ ∧
        ∃ answer, (Service.getConfig fs'
          (.object [("projectRootPath", .string ".")])).result = .ok answer ∧
          answer.render.toList =
            "\x7b\n  \"fromFile\": true,\n  \"config\": ".toList ++
              (shown ++ "\n\x7d".toList) := by
  intro settings shown fs
  have hvalid : settings.invalid? = none := by decide
  have hwrite : fs.write (join "." settingsFile) (.text shown) =
      .ok ⟨.directory [(".tweenlintrc.json", .file (.text shown))], []⟩ := rfl
  have hload := (shown_settings_load hvalid).2 1 _ List.mem_cons_self fs _ "." rfl hwrite
  exact ⟨hvalid, _, hwrite, hload, (shown_settings_load hvalid).1 _ _ "." true rfl hload⟩

end AnimLint
