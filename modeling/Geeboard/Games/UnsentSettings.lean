/-
This file is about settings that live in a game's files and that nobody has sent: a
line of a file that the panel was never given.

A save, a rebuild and an application of mods each render the settings and write the
files one after another. They leave alone the line of a setting that is not among
the stored ones. But a save stores what it was sent over the settings with their
defaults filled in, so behind the first save every setting is stored, and the next
operation writes the default over the line.
-/

import Geeboard.Games.Prevailing
import Geeboard.Games.Saves

namespace Geeboard.Games

open List Option Function
open Text (Record)
open Systems

/-! ### Writing files -/

/-- What the files of a server hold, by path. A file that is not there is empty. -/
abbrev Files := String → List Char

/-- Merges patches into the files one after another, as many as it gets to write. -/
def writeConfigFiles (language : Language) : List ConfigFilePatch → Nat → Files → Files
  | [], _, files => files
  | _ :: _, 0, files => files
  | patch :: patches, written + 1, files =>
    match applyPatch language patch (files patch.path) with
    | .ok content =>
      writeConfigFiles language patches written (Function.update files patch.path content)
    | .error _ => files

/-- Where a file holds a setting. -/
structure Place where
  file : String
  format : Format
  section_ : List Char
  key : List Char
  deriving DecidableEq, Repr

/-- The place of a setting that lives in a file. -/
def ConfigTarget.place : ConfigTarget → Option Place
  | .properties file key _ _ _ => some ⟨file, .properties, [], key⟩
  | .ini file section_ key => some ⟨file, .ini, section_, key⟩
  | .lua file table key _ => some ⟨file, .lua, table, key⟩
  | .luaBase file table _ => some ⟨file, .lua, table, []⟩
  | .cvar file name => some ⟨file, .cvar, [], name⟩
  | .json file pointer => some ⟨file, .json, [], pointer⟩
  | .env _ _ => none
  | .arg _ => none

/-- What the files hold there. -/
def Place.held (place : Place) (language : Language) (files : Files) : Option (List Char) :=
  place.format.reads language (files place.file) place.section_ place.key

section Writing

variable {language : Language} {files : Files}

theorem writeConfigFiles_elsewhere {patches : List ConfigFilePatch} {written : Nat} {path : String}
    (other : ∀ patch ∈ patches, patch.path ≠ path) :
    writeConfigFiles language patches written files path = files path := by
  fun_induction writeConfigFiles language patches written files with
  | case1 => rfl
  | case2 => rfl
  | case3 patch patches written files content applied inductionHypothesis =>
    obtain ⟨here, there⟩ := forall_mem_cons.mp other
    rw [inductionHypothesis there, update_of_ne here.symm]
  | case4 => rfl

/-- A file is left as it was or gets its patch, when no two patches are for one file. -/
theorem writeConfigFiles_once {patches : List ConfigFilePatch} {written : Nat} (path : String)
    (distinct : (patches.map ConfigFilePatch.path).Nodup) :
    writeConfigFiles language patches written files path = files path ∨
      ∃ patch ∈ patches, patch.path = path ∧ applyPatch language patch (files path) =
        .ok (writeConfigFiles language patches written files path) := by
  fun_induction writeConfigFiles language patches written files with
  | case1 => exact Or.inl rfl
  | case2 => exact Or.inl rfl
  | case3 patch patches written files content applied inductionHypothesis =>
    obtain ⟨fresh, rest⟩ := nodup_cons.mp distinct
    by_cases here : patch.path = path
    · have others : ∀ other ∈ patches, other.path ≠ path := by
        rintro other member same
        exact fresh (here.trans same.symm ▸ List.mem_map_of_mem member)
      refine Or.inr ⟨patch, mem_cons_self, here, ?_⟩
      rw [writeConfigFiles_elsewhere others, ← here, update_self, applied]
    · rcases inductionHypothesis rest with same | ⟨one, member, named, put⟩
      · rw [same, update_of_ne (Ne.symm here)]
        exact Or.inl rfl
      · rw [update_of_ne (Ne.symm here)] at put
        exact Or.inr ⟨one, mem_cons_of_mem _ member, named, put⟩
  | case4 => exact Or.inl rfl

end Writing

/-! ### The patches of a render -/

/-- Every patch is kept under its own path. -/
def UnderPaths (files : Record String ConfigFilePatch) : Prop :=
  ∀ file ∈ files.entries, file.2.path = file.1

section Paths

variable {language : Language} {game : GameDefinition} {values : ConfigValues}
  {options : RenderOptions} {version : Option GameVersion}

theorem underPaths_set {files : Record String ConfigFilePatch} {patch : ConfigFilePatch}
    (before : UnderPaths files) {path : String} (named : patch.path = path) :
    UnderPaths (files.set path patch) := by
  intro file member
  rcases Record.mem_setEntries member with rfl | old
  · exact named
  · exact before file old

variable {rendered : RenderedConfig}

theorem underPaths_put (before : UnderPaths rendered.files) (piece : Piece) :
    UnderPaths (rendered.put piece).files := by
  cases piece with
  | env name joined text => exact before
  | arg flag text => exact before
  | entry path format own =>
    refine underPaths_set before ?_
    cases has : rendered.files.get path with
    | none => rfl
    | some patch => exact before _ (Record.mem_of_get has)

theorem underPaths_foldl_put {pieces : List Piece} (before : UnderPaths rendered.files) :
    UnderPaths (pieces.foldl RenderedConfig.put rendered).files :=
  List.foldlRecOn (motive := fun later => UnderPaths (RenderedConfig.files later)) pieces _ before
    fun _ between piece _ => underPaths_put between piece

theorem underPaths_putMods {later : RenderedConfig} {list : Option ModTarget × List (List Char)}
    (before : UnderPaths rendered.files) (put : putMods rendered list = .ok later) :
    UnderPaths later.files := by
  unfold putMods at put
  split at put
  · cases put
    exact before
  · cases put
    exact underPaths_put before _
  · obtain ⟨content, -, rest⟩ := ok_of_bind put
    cases rest
    exact underPaths_set before rfl

theorem renderConfig_underPaths
    (made : renderConfig language game values version options = .ok rendered) :
    UnderPaths rendered.files := by
  unfold renderConfig at made
  obtain ⟨pieces, -, rest⟩ := ok_of_bind made
  rw [renderMods_eq] at rest
  refine kept_of_foldlM (fun later => UnderPaths (RenderedConfig.files later))
    (fun _ _ _ _ before put => underPaths_putMods before put) (underPaths_foldl_put ?_) rest
  unfold beginning
  exact underPaths_foldl_put fun file member => absurd member not_mem_nil

/-- The patches of a render, in the order they are written. -/
def RenderedConfig.patches (rendered : RenderedConfig) : List ConfigFilePatch :=
  rendered.files.entries.map Prod.snd

theorem patches_distinct (under : UnderPaths rendered.files) :
    (rendered.patches.map ConfigFilePatch.path).Nodup := by
  have keys : rendered.patches.map ConfigFilePatch.path = rendered.files.entries.map Prod.fst := by
    unfold RenderedConfig.patches
    rw [List.map_map]
    exact map_congr_left fun file member => under file member
  rw [keys]
  exact rendered.files.distinct

theorem get_of_patch (under : UnderPaths rendered.files) {patch : ConfigFilePatch}
    (member : patch ∈ rendered.patches) :
    rendered.files.get patch.path = some patch := by
  obtain ⟨file, inside, rfl⟩ := List.mem_map.mp member
  rw [under file inside]
  exact Record.get_of_mem inside

end Paths

/-! ### A setting that a render leaves alone -/

/-- Nothing else of the definition is written where this setting is: no other setting, no line of
the install, no list of mods. -/
structure Alone (language : Language) (game : GameDefinition) (field : ConfigField) (place : Place) :
    Prop where
  settings : ∀ other ∈ game.config, other ≠ field → ∀ value pieces,
    targetPieces language game other value = .ok pieces ∨ pieces = unset other.target →
    ∀ entry ∈ pieces.filterMap (Piece.into place.file),
      ¬ entry.Names language place.format place.section_ place.key
  lines : ∀ entry ∈ (game.install.lines false).filterMap (Piece.into place.file),
    ¬ entry.Names language place.format place.section_ place.key
  mods : ∀ options, ∀ list ∈ modLists game options,
    (∀ kind file, list.1 = some (.whole kind file) → file ≠ place.file) ∧
      ∀ entry ∈ (modPiece list).toList.filterMap (Piece.into place.file),
        ¬ entry.Names language place.format place.section_ place.key

section Left

variable {language : Language} {game : GameDefinition} {formatOf : String → Format}
  {values : ConfigValues} {options : RenderOptions} {version : Option GameVersion}
  {field : ConfigField} {place : Place} {files : Files}

theorem fieldPieces_left {pieces : List Piece} (left : leftAlone options field = true)
    (written : fieldPieces language game values options field = .ok pieces) : pieces = [] := by
  unfold fieldPieces at written
  dsimp only at written
  rw [if_pos left] at written
  cases written
  rfl

/-- What a setting writes is what its target writes, or the taking out of its cvar. -/
theorem fieldPieces_from {pieces : List Piece}
    (written : fieldPieces language game values options field = .ok pieces) :
    ∃ more, (targetPieces language game field (valueIn values field) = .ok more ∨
      more = unset field.target) ∧ pieces ⊆ more := by
  unfold fieldPieces at written
  dsimp only at written
  split at written
  · cases written
    exact ⟨_, Or.inr rfl, nil_subset _⟩
  · split at written
    · cases written
      exact ⟨_, Or.inr rfl, Subset.refl _⟩
    · split at written
      · cases written
        refine ⟨_, Or.inr rfl, ?_⟩
        split
        · exact Subset.refl _
        · exact nil_subset _
      · split at written
        · cases written
          exact ⟨_, Or.inr rfl, nil_subset _⟩
        · exact ⟨pieces, Or.inl written, Subset.refl _⟩

theorem writtenTo_apart (apart : Alone language game field place)
    (left : leftAlone options field = true) (later : options.creating = false) :
    ∀ entry ∈ writtenTo language game values options place.file,
      ¬ entry.Names language place.format place.section_ place.key := by
  intro entry member
  obtain ⟨piece, inside, into⟩ := mem_filterMap.mp member
  unfold written at inside
  rcases mem_append.mp inside with front | mod
  · rcases mem_append.mp front with line | setting
    · rw [later] at line
      exact apart.lines entry (mem_filterMap.mpr ⟨piece, line, into⟩)
    · obtain ⟨other, there, wrote⟩ := mem_flatMap.mp setting
      cases made : fieldPieces language game values options other with
      | error failure =>
        rw [made] at wrote
        exact absurd wrote not_mem_nil
      | ok pieces =>
        rw [made] at wrote
        by_cases own : other = field
        · subst own
          rw [fieldPieces_left left made] at wrote
          exact absurd wrote not_mem_nil
        · obtain ⟨more, from_, subset⟩ := fieldPieces_from made
          exact apart.settings other there own _ more from_ entry
            (mem_filterMap.mpr ⟨piece, subset wrote, into⟩)
  · obtain ⟨list, there, made⟩ := mem_filterMap.mp mod
    exact (apart.mods options list there).2 entry
      (mem_filterMap.mpr ⟨piece, mem_toList.mpr made, into⟩)

theorem inFile_of_place {target : ConfigTarget} (is : target.place = some place) :
    target.inFile = true := by
  cases target with
  | env name joined => cases is
  | arg flag => cases is
  | _ => rfl

/-- What a definition says that is the same for every render of it. -/
structure Definite (language : Language) (game : GameDefinition) (formatOf : String → Format)
    (field : ConfigField) (place : Place) : Prop where
  spells : language.Spells
  formatted : formatOf place.file = place.format
  member : field ∈ game.config
  there : field.target.place = some place
  apart : Alone language game field place

/-- A render whose texts their files can hold and that breaks no line, onto a file that is read one
way. -/
structure Tidy (language : Language) (game : GameDefinition) (formatOf : String → Format)
    (place : Place) (values : ConfigValues) (options : RenderOptions) (files : Files) : Prop where
  orderly : Orderly language game values options formatOf
  unbroken : Unbroken language game values options
  settled : Settled (files place.file)
  outside : place.format = .lua → ∀ entry ∈ writtenTo language game values options place.file,
    entry.key = [] → Outside entry.section_ (files place.file)

/-- A render that leaves a setting alone leaves what its place holds. -/
theorem render_keeps (definite : Definite language game formatOf field place)
    (tidy : Tidy language game formatOf place values options files)
    (left : leftAlone options field = true) (later : options.creating = false)
    {rendered : RenderedConfig}
    (made : renderConfig language game values version options = .ok rendered) (count : Nat) :
    place.held language (writeConfigFiles language rendered.patches count files) =
      place.held language files := by
  have under := renderConfig_underPaths made
  have fits : ∀ piece ∈ written language game values options, PieceOf formatOf piece := by
    refine written_of definite.spells tidy.orderly tidy.unbroken.fields
      fun list inside file key separator is _ between member => ?_
    rcases Text.mem_intercalate member with separators | ⟨id, there, has⟩
    · exact between separators
    · exact tidy.unbroken.mods list inside file key separator is id there has
  unfold Place.held
  rcases @writeConfigFiles_once language files rendered.patches count place.file
    (patches_distinct under) with same | ⟨patch, member, named, put⟩
  · rw [same]
  · have has := get_of_patch under member
    rw [named, renderConfig_files made fits fun list inside kind path is =>
      ((definite.apart.mods options list inside).1 kind path is)] at has
    obtain ⟨-, same⟩ := ite_none_left_eq_some.mp has
    obtain rfl := some.inj same
    have format := definite.formatted
    have entries : ∀ entry ∈ writtenTo language game values options place.file,
        entry.Fits (formatOf place.file) := by
      intro entry there
      obtain ⟨piece, whole, into⟩ := mem_filterMap.mp there
      obtain ⟨format, rfl⟩ := into_some into
      exact (fits _ whole).2
    rw [← format]
    refine applyPatch_other entries tidy.settled (fun isLua => tidy.outside (format ▸ isLua)) put
      fun entry there => ?_
    dsimp only
    rw [format]
    exact writtenTo_apart definite.apart left later entry there

end Left

/-! ### Saves, rebuilds and applications of mods -/

/-- A server: what its row holds of its settings, and its files. -/
structure ServerState where
  columns : StoredColumns
  files : Files

/-- How a save goes on behind its write of the settings: it ends there, it writes some of the
files, its rebuild is not let in, or is, and writes some of the files; a rebuild that fails may
have touched nothing, and else the workload is made again from the settings it had. -/
inductive Course where
  | ends
  | writes (count : Nat)
  | unclaimed
  | rebuilt (count : Nat)
  | untouched
  | putBack (count again : Nat)
  | lost (count again : Nat)
  deriving DecidableEq, Repr

inductive Operation where
  | save (facts : Saves.ServerFacts) (onNode sent : ConfigValues) (recreate : Bool)
      (course : Course)
  | rebuild (version : Option GameVersion) (count : Nat)
  | applyMods (version : Option GameVersion) (mods : Mods) (count : Nat)

/-- What an operation is sent. -/
def Operation.sent : Operation → ConfigValues
  | .save _ _ sent _ _ => sent
  | .rebuild _ _ => .empty
  | .applyMods _ _ _ => .empty

section

variable (language : Language) (test : PatternTest) (game : GameDefinition)

/-- Renders the settings of a server that exists and writes some of the files. -/
def rewrite (values stored : ConfigValues) (version : Option GameVersion) (mods : Option Mods)
    (count : Nat) (files : Files) : Files :=
  match renderConfig language game values version
      { includeEmpty := true, stored := some stored, mods := mods } with
  | .ok rendered => writeConfigFiles language rendered.patches count files
  | .error _ => files

/-- The files a rebuild from these columns writes. -/
def rebuildFrom (columns : StoredColumns) (version : Option GameVersion) (count : Nat)
    (files : Files) : Files :=
  rewrite language game (currentConfig game (storedSettings columns)) (storedSettings columns)
    version none count files

/-- What a save makes of what it was sent, before it puts it over the settings. -/
def valuesOf (columns : StoredColumns) (onNode sent : ConfigValues) : ConfigValues :=
  let before := currentConfig game (storedSettings columns)
  Saves.takeFixed game before onNode (unmaskSecrets game sent before)

/-- The settings that a save that does not rebuild renders as stored ones. -/
def storedBy (columns : StoredColumns) (onNode sent : ConfigValues) : ConfigValues :=
  (storedSettings columns).merge (valuesOf game columns onNode sent)

/-- The columns that a save's rebuild renders from. -/
def rebuiltColumns (save : Saves.Save) : StoredColumns :=
  ⟨some save.after, save.read.secretSettings⟩

/-- A save from its write of the settings on. -/
def carryOn (state : ServerState) (save : Saves.Save) (version : Option GameVersion)
    (rendered : RenderedConfig) : Course → ServerState
  | .ends => ⟨settingsData game save.after, state.files⟩
  | .writes count =>
    if save.plan.needsRecreate then ⟨settingsData game save.after, state.files⟩
    else ⟨settingsData game save.after, writeConfigFiles language rendered.patches count state.files⟩
  | .unclaimed => ⟨settingsData game save.before, state.files⟩
  | .rebuilt count =>
    ⟨settingsData game save.after,
      rebuildFrom language game (rebuiltColumns save) version count state.files⟩
  | .untouched => ⟨save.previous game, state.files⟩
  | .putBack count again =>
    ⟨save.previous game, rebuildFrom language game state.columns version again
      (rebuildFrom language game (rebuiltColumns save) version count state.files)⟩
  | .lost count again =>
    ⟨settingsData game save.after, rebuildFrom language game state.columns version again
      (rebuildFrom language game (rebuiltColumns save) version count state.files)⟩

/-- One operation. A save that is refused, or whose render stops, changes nothing. -/
def operate (state : ServerState) : Operation → ServerState
  | .save facts onNode sent recreate course =>
    match Saves.prepareSave language test game state.columns facts onNode sent recreate with
    | .error _ => state
    | .ok save =>
      match renderConfig language game save.after facts.version
          { includeEmpty := true, stored := some (storedBy game state.columns onNode sent) } with
      | .error _ => state
      | .ok rendered => carryOn language game state save facts.version rendered course
  | .rebuild version count =>
    ⟨state.columns, rebuildFrom language game state.columns version count state.files⟩
  | .applyMods version mods count =>
    ⟨state.columns, rewrite language game (currentConfig game (storedSettings state.columns))
      (storedSettings state.columns) version (some mods) count state.files⟩

/-! ### When a line nobody sent is left -/

/-- The settings lack the setting's key, or it is a rule of the world, which is written once. -/
def Lacks (field : ConfigField) (stored : ConfigValues) : Prop :=
  field.fixedAfterCreation = true ∨ stored.get field.key = none

/-- A render whose texts their files can hold and that breaks no line. -/
def TidyRender (formatOf : String → Format) (place : Place) (values stored : ConfigValues)
    (mods : Option Mods) (files : Files) : Prop :=
  Tidy language game formatOf place values
    { includeEmpty := true, stored := some stored, mods := mods } files

/-- A rebuild from these columns that writes nothing, or whose settings lack the key. -/
def SparesRebuild (formatOf : String → Format) (field : ConfigField) (place : Place)
    (columns : StoredColumns) (count : Nat) (files : Files) : Prop :=
  count = 0 ∨ Lacks field (storedSettings columns) ∧
    TidyRender language game formatOf place (currentConfig game (storedSettings columns))
      (storedSettings columns) none files

/-- An operation writes files only from settings that lack the key: the stored ones, and where it
is a save that rebuilds, those with the defaults filled in. -/
def Spares (formatOf : String → Format) (field : ConfigField) (place : Place)
    (state : ServerState) : Operation → Prop
  | .save facts onNode sent recreate course =>
    ∀ save, Saves.prepareSave language test game state.columns facts onNode sent recreate = .ok save →
      match course with
      | .writes count =>
        count = 0 ∨ Lacks field (storedSettings state.columns) ∧
          TidyRender language game formatOf place save.after (storedBy game state.columns onNode sent) none
            state.files
      | .rebuilt count =>
        SparesRebuild language game formatOf field place (rebuiltColumns save) count state.files
      | .putBack count again =>
        SparesRebuild language game formatOf field place (rebuiltColumns save) count state.files ∧
          SparesRebuild language game formatOf field place state.columns again
            (rebuildFrom language game (rebuiltColumns save) facts.version count state.files)
      | .lost count again =>
        SparesRebuild language game formatOf field place (rebuiltColumns save) count state.files ∧
          SparesRebuild language game formatOf field place state.columns again
            (rebuildFrom language game (rebuiltColumns save) facts.version count state.files)
      | _ => True
  | .rebuild _ count =>
    SparesRebuild language game formatOf field place state.columns count state.files
  | .applyMods _ mods count =>
    count = 0 ∨ Lacks field (storedSettings state.columns) ∧
      TidyRender language game formatOf place (currentConfig game (storedSettings state.columns))
        (storedSettings state.columns) (some mods) state.files

end

section Kept

variable {language : Language} {test : PatternTest} {game : GameDefinition}
  {formatOf : String → Format} {field : ConfigField} {place : Place}

theorem writeConfigFiles_zero (patches : List ConfigFilePatch) (files : Files) :
    writeConfigFiles language patches 0 files = files := by
  cases patches with
  | nil => rfl
  | cons patch patches => rfl

theorem leftAlone_of_lacks (definite : Definite language game formatOf field place)
    {stored : ConfigValues} (lacks : Lacks field stored) (mods : Option Mods) :
    leftAlone { includeEmpty := true, stored := some stored, mods := mods } field = true := by
  have inFile := inFile_of_place definite.there
  unfold leftAlone
  rcases lacks with fixed | absent
  · simp [fixed]
  · simp [Record.has, absent, inFile]

theorem rewrite_keeps (definite : Definite language game formatOf field place)
    {values stored : ConfigValues} {mods : Option Mods} {files : Files}
    (lacks : Lacks field stored) (tidy : TidyRender language game formatOf place values stored mods files)
    (version : Option GameVersion) (count : Nat) :
    place.held language (rewrite language game values stored version mods count files) =
      place.held language files := by
  unfold rewrite
  split
  · rename_i rendered made
    exact render_keeps definite tidy (leftAlone_of_lacks definite lacks mods) rfl made count
  · rfl

theorem rewrite_zero (values stored : ConfigValues) (mods : Option Mods) (files : Files)
    (version : Option GameVersion) :
    rewrite language game values stored version mods 0 files = files := by
  unfold rewrite
  split
  · exact writeConfigFiles_zero _ _
  · rfl

theorem rebuildFrom_keeps (definite : Definite language game formatOf field place)
    {columns : StoredColumns} {count : Nat} {files : Files}
    (spares : SparesRebuild language game formatOf field place columns count files)
    (version : Option GameVersion) :
    place.held language (rebuildFrom language game columns version count files) =
      place.held language files := by
  unfold rebuildFrom
  rcases spares with rfl | ⟨lacks, tidy⟩
  · rw [rewrite_zero]
  · exact rewrite_keeps definite lacks tidy version count

theorem unmaskSecrets_none {sent before : ConfigValues} {key : String}
    (absent : sent.get key = none) : (unmaskSecrets game sent before).get key = none := by
  unfold unmaskSecrets
  refine List.foldlRecOn (motive := fun out => Record.get out key = none) (secretKeys game) _ absent
    fun out nothing secret _ => ?_
  split
  · rename_i masked
    have other : secret ≠ key := by
      rintro rfl
      rw [nothing] at masked
      cases masked
    split
    · rw [Record.get_set_of_ne _ _ other]
      exact nothing
    · rw [Record.get_only]
      split
      · exact nothing
      · rfl
  · exact nothing

theorem takeFixed_none {before onNode values : ConfigValues} {key : String}
    (absent : values.get key = none) :
    (Saves.takeFixed game before onNode values).get key = none := by
  unfold Saves.takeFixed
  refine List.foldlRecOn (motive := fun out => Record.get out key = none) _ _ absent
    fun out nothing fixed _ => ?_
  split
  · rename_i taken
    have other : fixed ≠ key := by
      rintro rfl
      simp [Record.has, nothing] at taken
    split
    · rw [Record.get_set_of_ne _ _ other]
      exact nothing
    · exact nothing
  · exact nothing

theorem lacks_storedBy {columns : StoredColumns} {onNode sent : ConfigValues}
    (unsent : sent.get field.key = none) (lacks : Lacks field (storedSettings columns)) :
    Lacks field (storedBy game columns onNode sent) := by
  refine lacks.imp_right fun absent => ?_
  unfold storedBy valuesOf
  rw [Record.get_merge, takeFixed_none (unmaskSecrets_none unsent), absent]
  rfl

/-- An operation that is not sent the setting, and writes files only from settings that lack it,
leaves its line. -/
theorem operate_keeps (definite : Definite language game formatOf field place)
    {state : ServerState} {operation : Operation}
    (spares : Spares language test game formatOf field place state operation)
    (unsent : operation.sent.get field.key = none) :
    place.held language (operate language test game state operation).files =
      place.held language state.files := by
  cases operation with
  | rebuild version count => exact rebuildFrom_keeps definite spares version
  | applyMods version mods count =>
    unfold operate
    rcases spares with rfl | ⟨lacks, tidy⟩
    · dsimp only
      rw [rewrite_zero]
    · exact rewrite_keeps definite lacks tidy version count
  | save facts onNode sent recreate course =>
    unfold operate
    dsimp only
    split
    · rfl
    · rename_i save prepared
      have spared := spares save prepared
      split
      · rfl
      · rename_i rendered made
        cases course with
        | ends => rfl
        | unclaimed => rfl
        | untouched => rfl
        | writes count =>
          unfold carryOn
          dsimp only
          split
          · rfl
          · rcases spared with rfl | ⟨lacks, tidy⟩
            · dsimp only
              rw [writeConfigFiles_zero]
            · exact render_keeps definite tidy
                (leftAlone_of_lacks definite (lacks_storedBy unsent lacks) none) rfl made count
        | rebuilt count => exact rebuildFrom_keeps definite spared facts.version
        | putBack count again =>
          exact (rebuildFrom_keeps definite spared.2 facts.version).trans
            (rebuildFrom_keeps definite spared.1 facts.version)
        | lost count again =>
          exact (rebuildFrom_keeps definite spared.2 facts.version).trans
            (rebuildFrom_keeps definite spared.1 facts.version)

end Kept

/-- Over every sequence of operations none of which is sent a setting, and that write files only
from settings that lack it, its line in the file stays what it was. -/
theorem unsent_setting_kept (language : Language) (test : PatternTest) (game : GameDefinition)
    (formatOf : String → Format) (field : ConfigField) (place : Place)
    (definite : Definite language game formatOf field place) (start : ServerState)
    (operations : List Operation)
    (unsent : ∀ operation ∈ operations, operation.sent.get field.key = none)
    (spared : Meets (fun state operation => some (operate language test game state operation))
      (Spares language test game formatOf field place) start operations) :
    Along (fun state operation => some (operate language test game state operation))
      (fun later => place.held language later.files = place.held language start.files)
      start operations := by
  refine along_of_meets (fun state operation next held spares taken => ?_) rfl
    (spared.with_mem unsent)
  rw [← some.inj taken, operate_keeps definite spares.1 spares.2]
  exact held

/-! ### A line that two saves write over -/

def levelField : ConfigField where
  key := "level"
  label := "Level"
  type := .string
  default := .string "world".toList
  target := .properties "server.properties" "level".toList none false false

/-- A game with a message and a level, both in one file. -/
def levelGame : GameDefinition where
  id := "game"
  name := "Game"
  versions := [{ id := "1", image := "game:1" }]
  config := [levelField,
    { key := "motd", label := "Message", type := .string, default := .string []
      target := .properties "server.properties" "motd".toList none false false }]

def levelPlace : Place := ⟨"server.properties", .properties, [], "level".toList⟩

/-- A server whose settings were never stored, and whose file has a level of its own. -/
def levelStart : ServerState := ⟨⟨none, none⟩, fun _ => "level=mine\n".toList⟩

/-- A save of the message alone. -/
def saving (text : List Char) : Operation :=
  .save ⟨some { id := "1", image := "game:1" }, false, true, none⟩ .empty
    (.ofEntries [("motd", .string text)]) false (.writes 1)

def trivialTest : PatternTest := fun _ _ => true

theorem level_definite :
    Definite ascii levelGame (fun _ => .properties) levelField levelPlace := by
  refine ⟨ascii_spells, rfl, mem_cons_self, rfl, ?_, ?_, ?_⟩
  · intro other member different value pieces from_ entry inside
    simp only [levelGame, mem_cons, not_mem_nil, or_false] at member
    rcases member with rfl | rfl
    · exact absurd rfl different
    · rcases from_ with written | rfl
      · cases written
        obtain ⟨piece, there, into⟩ := mem_filterMap.mp inside
        rw [mem_singleton.mp there] at into
        cases into
        exact (by decide : "motd".toList ≠ "level".toList)
      · cases inside
  · intro entry member
    cases member
  · intro options list member
    cases member

/-- Mods are applied, the message is saved, and the server is rebuilt without a file written. -/
def modsThenSave : List Operation :=
  [.applyMods (some { id := "1", image := "game:1" }) ⟨[['1']], []⟩ 1, saving ['a'],
    .rebuild (some { id := "1", image := "game:1" }) 0]

theorem level_tidy {values : ConfigValues} {options : RenderOptions} {files : Files}
    (texts : ∀ field ∈ levelGame.config, '\n' ∉ asText ascii (valueIn values field))
    (settled : Settled (files "server.properties")) :
    Tidy ascii levelGame (fun _ => .properties) levelPlace values options files := by
  refine ⟨⟨fun field member _ => ?_, fun env fixed install => ?_, fun list member => ?_⟩,
    ⟨fun field member _ _ => ?_, fun list member => ?_⟩, settled, by rintro ⟨⟩⟩
  · simp only [levelGame, mem_cons, not_mem_nil, or_false] at member
    rcases member with rfl | rfl
    · exact ⟨rfl, ⟨cons_ne_nil _ _, List.all_eq_true.mp rfl⟩, not_mem_nil⟩
    · exact ⟨rfl, ⟨cons_ne_nil _ _, List.all_eq_true.mp rfl⟩, not_mem_nil⟩
  · cases install
    exact fun fixed member => absurd member not_mem_nil
  · cases member
  · have text := texts field member
    simp only [levelGame, mem_cons, not_mem_nil, or_false] at member
    rcases member with rfl | rfl
    · exact fun _ => text
    · exact fun _ => text
  · cases member

/-- They leave the level. -/
theorem unsent_setting_kept_modsThenSave :
    Along (fun state operation => some (operate ascii trivialTest levelGame state operation))
      (fun later => levelPlace.held ascii later.files = levelPlace.held ascii levelStart.files)
      levelStart modsThenSave := by
  refine unsent_setting_kept ascii trivialTest levelGame (fun _ => .properties) levelField
    levelPlace level_definite levelStart modsThenSave (by decide +kernel) ?_
  refine Systems.meets_cons (Or.inr ⟨Or.inr rfl, level_tidy (by decide +kernel) ?_⟩) rfl ?_
  · unfold Settled
    decide +kernel
  refine Systems.meets_cons (fun save prepared => ?_) rfl ?_
  · obtain rfl := Except.ok.inj (prepared.symm.trans (by rfl))
    refine Or.inr ⟨Or.inr rfl, level_tidy (by decide +kernel) ?_⟩
    unfold Settled
    decide +kernel
  exact ⟨Or.inl rfl, fun _ _ => trivial⟩

/-- The second save of the message writes the level that nobody sent. -/
theorem second_save_writes_level :
    auditDefinition ascii levelGame = [] ∧
      (storedSettings levelStart.columns).get "level" = none ∧
      (saving ['a']).sent.get "level" = none ∧ (saving ['b']).sent.get "level" = none ∧
      levelPlace.held ascii levelStart.files = some "mine".toList ∧
      levelPlace.held ascii
        (operate ascii trivialTest levelGame levelStart (saving ['a'])).files =
          some "mine".toList ∧
      levelPlace.held ascii
        (operate ascii trivialTest levelGame
          (operate ascii trivialTest levelGame levelStart (saving ['a'])) (saving ['b'])).files =
            some "world".toList := by
  decide +kernel

end Geeboard.Games
