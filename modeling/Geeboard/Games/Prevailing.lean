/-
This file is about settings that write the same file: which of them a key holds
in the end.

A render puts into a file the lines of the install, what the settings write there in
their order, and the mods. The last of these that names a key decides it, whatever
the ones before it wanted; only the module that a Lua table starts from is decided
by the first. A setting whose text can be taken back keeps it exactly when what
decides its key writes that same text.
-/

import Geeboard.Games.OtherKeys
import Geeboard.Games.NamedTables

namespace Geeboard.Games

open Text List Option
open Systems

/-! ### What decides a key -/

/-- What a file of a format holds for a key, as it stands there. -/
def Format.raw (language : Language) (format : Format) (content section_ key : List Char) :
    Option (List Char) :=
  match format with
  | .properties => rawProperty content key
  | .ini => rawIniValue content section_ key
  | .lua => if key.isEmpty then readLuaValue content section_ [] else luaLiteral content section_ key
  | .cvar => readCvar language content key
  | .json => none
  | .whole => none

/-- Whether two entries of one patch are for the same key. A Lua patch has one table. -/
def Entry.sameKey (language : Language) (format : Format) (own entry : Entry) : Bool :=
  match format with
  | .properties => entry.key == own.key
  | .ini => entry.section_ == own.section_ && entry.key == own.key
  | .lua => entry.key == own.key
  | .cvar => language.lowerCase entry.key == language.lowerCase own.key
  | .json => false
  | .whole => false

/-- The entry that decides the key of another one: the last for it, and the first for the start of
a Lua table. -/
def deciding (language : Language) (format : Format) (entries : List Entry) (own : Entry) :
    Option Entry :=
  if format = .lua && own.key.isEmpty then entries.find? (own.sameKey language format)
  else entries.reverse.find? (own.sameKey language format)

/-- What an entry leaves its key with. -/
def Entry.left (format : Format) (entry : Entry) : Option (List Char) :=
  if format = .cvar && entry.remove then none else some entry.value

/-- A value that its format's reader takes back as it was written. -/
def Entry.Legible (format : Format) (entry : Entry) : Prop :=
  match format with
  | .properties => Games.Legible entry.value
  | .ini => Games.Legible entry.value
  | .lua => (entry.key = [] → '"' ∉ entry.value ∧ '\n' ∉ entry.value) ∧
      (entry.key ≠ [] → LuaLegible entry.value)
  | .cvar => Quotable entry.value
  | .json => True
  | .whole => True

section Lookups

variable {language : Language} {entries : List Entry} {own : Entry}

theorem wantedOf_keyed_find {key : List Char} (entries : List Entry) (keyed : key ≠ []) :
    (luaKeys entries).get key =
      (entries.reverse.find? fun entry => entry.key == key).map Entry.value := by
  rw [wantedOf_find, ← filter_reverse, find?_filter]
  congr 2
  ext entry
  by_cases mine : entry.key = key
  · simp [mine, keyed]
  · simp [mine]

/-- Something decides the key of an entry that is there. -/
theorem deciding_of_mem {format : Format} (own : Entry) (member : own ∈ entries)
    (held : own.sameKey language format own = true) :
    ∃ entry ∈ entries, deciding language format entries own = some entry := by
  unfold deciding
  split
  · obtain ⟨entry, found⟩ := isSome_iff_exists.mp
      (find?_isSome.mpr ⟨own, member, held⟩)
    exact ⟨entry, mem_of_find?_eq_some found, found⟩
  · obtain ⟨entry, found⟩ := isSome_iff_exists.mp
      (find?_isSome.mpr ⟨own, mem_reverse.mpr member, held⟩)
    exact ⟨entry, mem_reverse.mp (mem_of_find?_eq_some found), found⟩

/-- After a patch of entries that fit and can be taken back, a key of one of them holds what the
deciding one leaves it with. -/
theorem applyPatch_named {patch : ConfigFilePatch} {existing content : List Char}
    (fits : ∀ entry ∈ patch.entries, entry.Fits patch.format)
    (legible : ∀ entry ∈ patch.entries, entry.Legible patch.format) (settled : Settled existing)
    (outside : patch.format = .lua → ∀ entry ∈ patch.entries, entry.key = [] →
      Outside entry.section_ existing ∧ Started entry.section_ existing)
    (oneShape : patch.format = .lua → own.key ≠ [] → OneShape own.section_ own.key existing)
    (applied : applyPatch language patch existing = .ok content) (member : own ∈ patch.entries) :
    patch.format.raw language content own.section_ own.key =
      (deciding language patch.format patch.entries own).bind (Entry.left patch.format) := by
  unfold applyPatch at applied
  cases format : patch.format with
  | properties =>
    simp only [format] at applied fits legible
    cases applied
    obtain ⟨entry, there, found⟩ := @deciding_of_mem language _ .properties own member
      (beq_self_eq_true _)
    rw [found]
    have asked : (wantedOf patch.entries).get own.key = some entry.value := by
      rw [wantedOf_find]
      exact congrArg (Option.map Entry.value) found
    exact (rawProperty_named ⟨fun entry member => (fits entry member).1,
      fun entry member => (fits entry member).2⟩ (fun entry member => (legible entry member).plain)
        settled asked).trans (congrArg some (dropWhile_solid (legible entry there).solid))
  | ini =>
    simp only [format] at applied fits legible
    cases applied
    have held : own.sameKey language .ini own = true := by
      unfold Entry.sameKey
      simp
    obtain ⟨entry, there, found⟩ := @deciding_of_mem language _ .ini own member held
    rw [found]
    exact (@rawIniValue_named patch.entries existing (own.section_, own.key)
      (iniEntries_of_keys (fun entry member => (fits entry member).1)
        (fun entry member => (fits entry member).2.1) fun entry member => (fits entry member).2.2)
      (fun entry member => (legible entry member).plain) settled entry found).trans
        (congrArg some (dropWhile_solid (legible entry there).solid))
  | lua =>
    simp only [format] at applied fits legible
    have orderly : LuaEntries patch.entries := ⟨fun entry member => (fits entry member).1,
      fun entry member => (fits entry member).2.1, fun entry member => (fits entry member).2.2.1,
      fun entry member => (fits entry member).2.2.2⟩
    obtain ⟨table, tables, -⟩ := mergeLua_cases orderly applied
    obtain ⟨entry, there, found⟩ := @deciding_of_mem language _ .lua own member
      (beq_self_eq_true _)
    rw [found]
    by_cases keyless : own.key = []
    · have first : patch.entries.find? (fun entry => entry.key.isEmpty) = some entry := by
        unfold deciding at found
        rw [keyless] at found
        rw [← found]
        congr 1
        ext one
        unfold Entry.sameKey
        rw [keyless]
        cases one.key with
        | nil => rfl
        | cons char rest => rfl
      have empty : entry.key = [] := by simpa using find?_some first
      have same : own.section_ = entry.section_ := by rw [tables own member, tables entry there]
      rw [keyless, same]
      exact luaModule_named orderly settled first ((legible entry there).1 empty).1
        (outside format entry there empty).2 (outside format entry there empty).1 applied
    · have last : (patch.entries.reverse.find? fun entry => entry.key == own.key) = some entry := by
        unfold deciding at found
        rw [if_neg] at found
        · exact found
        · simpa using keyless
      unfold Format.raw
      dsimp only
      rw [if_neg (by simpa using keyless)]
      refine luaLiteral_named orderly (fun entry member => (legible entry member).2) settled
        (fun entry member keyless => (outside format entry member keyless).1)
        (oneShape format keyless) (fun entry there => ?_) applied ?_
      · rw [tables own member, tables entry there]
      · rw [wantedOf_keyed_find _ keyless, last]
        rfl
  | cvar =>
    simp only [format] at applied fits legible
    cases applied
    obtain ⟨entry, there, found⟩ := @deciding_of_mem language _ .cvar own member
      (beq_self_eq_true _)
    rw [found]
    have wanted : (cvarsWanted language patch.entries).get (language.lowerCase own.key) =
        some entry := by
      rw [cvarsWanted_find]
      exact found
    refine (readCvar_named (fun entry member _ => legible entry member) wanted
      ⟨fun entry member => (fits entry member).1, fun entry member => (fits entry member).2.1,
        fun entry member => (fits entry member).2.2⟩ settled).trans ?_
    unfold Entry.left
    rw [bind_some]
    cases entry.remove with
    | false => rfl
    | true => rfl
  | json =>
    simp only [format] at applied
    cases applied
  | whole =>
    have nothing : deciding language .whole patch.entries own = none := by
      unfold deciding Entry.sameKey
      simp
    rw [nothing]
    rfl

end Lookups

/-! ### What a file gets -/

/-- The entry that a piece puts into a file. -/
def Piece.into (file : String) : Piece → Option Entry
  | .entry path _ own => if path = file then some own else none
  | _ => none

/-- The assignment that a list of mods is written as. -/
def modPiece (list : Option ModTarget × List (List Char)) : Option Piece :=
  match list.1 with
  | some (.key file key separator) =>
    some (.entry file .properties ⟨[], key, separator.intercalate list.2, false⟩)
  | _ => none

section Written

variable (language : Language) (game : GameDefinition) (values : ConfigValues)
  (options : RenderOptions)

/-- What the install, each of the settings and the mods write, in this order. -/
def written : List Piece :=
  game.install.lines options.creating ++
    game.config.flatMap (fun field =>
      (fieldPieces language game values options field).toOption.getD []) ++
    (modLists game options).filterMap modPiece

/-- What of it goes into one file. -/
def writtenTo (file : String) : List Entry :=
  (written language game values options).filterMap (Piece.into file)

/-- The entry that a setting writes under its own key of a file. -/
def OwnEntry (field : ConfigField) (file : String) (format : Format) (own : Entry) : Prop :=
  own.remove = false ∧ ∃ others,
    fieldPieces language game values options field = .ok (.entry file format own :: others)

end Written

/-- The patch of a file with entries to merge in. -/
def patchOf (formatOf : String → Format) (file : String) (entries : List Entry) :
    Option ConfigFilePatch :=
  if entries = [] then none else some ⟨file, formatOf file, entries⟩

section Tracked

variable {language : Language} {game : GameDefinition} {formatOf : String → Format}
  {values : ConfigValues} {options : RenderOptions} {file : String}

theorem into_some {piece : Piece} {entry : Entry} (into : piece.into file = some entry) :
    ∃ format, piece = .entry file format entry := by
  cases piece with
  | env name joined text => cases into
  | arg flag text => cases into
  | entry path format own =>
    obtain ⟨rfl, same⟩ := ite_none_right_eq_some.mp into
    exact ⟨format, congrArg _ (some.inj same)⟩

variable {rendered : RenderedConfig} {entries : List Entry}

theorem patchOf_some (some_ : entries ≠ []) :
    patchOf formatOf file entries = some ⟨file, formatOf file, entries⟩ := if_neg some_

theorem patch_put {piece : Piece} (before : rendered.files.get file = patchOf formatOf file entries)
    (fits : PieceOf formatOf piece) :
    (rendered.put piece).files.get file =
      patchOf formatOf file (entries ++ (piece.into file).toList) := by
  have nothing : patchOf formatOf file entries = patchOf formatOf file (entries ++ []) := by
    rw [append_nil]
  cases piece with
  | env name joined text => exact before.trans nothing
  | arg flag text => exact before.trans nothing
  | entry path format own =>
    unfold RenderedConfig.put addEntry Piece.into
    dsimp only
    rw [Record.get_set]
    by_cases here : path = file
    · obtain ⟨same, -⟩ := fits
      have last : entries ++ [own] ≠ [] := append_ne_nil_of_right_ne_nil _
        (cons_ne_nil _ _)
      rw [if_pos here, if_pos here, toList_some, patchOf_some last, here, before, ← same, here]
      unfold patchOf
      by_cases none_ : entries = []
      · rw [if_pos none_, none_]
        rfl
      · rw [if_neg none_]
        rfl
    · rw [if_neg here, if_neg here]
      exact before.trans nothing

theorem patch_foldl_put {pieces : List Piece}
    (before : rendered.files.get file = patchOf formatOf file entries)
    (fits : ∀ piece ∈ pieces, PieceOf formatOf piece) :
    (pieces.foldl RenderedConfig.put rendered).files.get file =
      patchOf formatOf file (entries ++ pieces.filterMap (Piece.into file)) := by
  induction pieces generalizing rendered entries with
  | nil => rw [filterMap_nil, append_nil, foldl_nil, before]
  | cons piece pieces inductionHypothesis =>
    obtain ⟨here, there⟩ := forall_mem_cons.mp fits
    rw [foldl_cons, inductionHypothesis (patch_put before here) there, append_assoc]
    congr 2
    rw [filterMap_cons]
    cases piece.into file with
    | none => rfl
    | some own => rfl

theorem patch_putMods {later : RenderedConfig} {list : Option ModTarget × List (List Char)}
    (before : rendered.files.get file = patchOf formatOf file entries)
    (elsewhere : ∀ kind path, list.1 = some (.whole kind path) → path ≠ file)
    (fits : ∀ piece, modPiece list = some piece → PieceOf formatOf piece)
    (put : putMods rendered list = .ok later) :
    later.files.get file =
      patchOf formatOf file (entries ++ (modPiece list).toList.filterMap (Piece.into file)) := by
  unfold putMods at put
  split at put
  · rename_i none_
    cases put
    unfold modPiece
    rw [none_, before]
    exact congrArg _ (append_nil _).symm
  · rename_i path key separator is
    cases put
    have piece : modPiece list = some (.entry path .properties
        ⟨[], key, separator.intercalate list.2, false⟩) := by
      unfold modPiece
      rw [is]
    rw [patch_put before (fits _ piece), piece, toList_some, filterMap_cons]
    congr 2
  · rename_i kind path is
    obtain ⟨content, -, rest⟩ := ok_of_bind put
    cases rest
    have piece : modPiece list = none := by
      unfold modPiece
      rw [is]
    rw [piece, Record.get_set_of_ne _ _ (elsewhere kind path is), before]
    exact congrArg _ (append_nil _).symm

theorem patch_modLists {lists : List (Option ModTarget × List (List Char))} {later : RenderedConfig}
    (before : rendered.files.get file = patchOf formatOf file entries)
    (elsewhere : ∀ list ∈ lists, ∀ kind path, list.1 = some (.whole kind path) → path ≠ file)
    (fits : ∀ piece ∈ lists.filterMap modPiece, PieceOf formatOf piece)
    (put : lists.foldlM putMods rendered = .ok later) :
    later.files.get file = patchOf formatOf file
      (entries ++ (lists.filterMap modPiece).filterMap (Piece.into file)) := by
  induction lists generalizing rendered entries with
  | nil =>
    cases put
    rw [filterMap_nil, filterMap_nil, append_nil, before]
  | cons list lists inductionHypothesis =>
    rw [foldlM_cons] at put
    obtain ⟨between, first, rest⟩ := ok_of_bind put
    obtain ⟨here, there⟩ := forall_mem_cons.mp elsewhere
    have own : ∀ piece, modPiece list = some piece → PieceOf formatOf piece :=
      fun piece made => fits piece (mem_filterMap.mpr ⟨list, mem_cons_self, made⟩)
    have others : ∀ piece ∈ lists.filterMap modPiece, PieceOf formatOf piece := by
      intro piece member
      obtain ⟨one, inside, made⟩ := mem_filterMap.mp member
      exact fits piece (mem_filterMap.mpr ⟨one, mem_cons_of_mem _ inside, made⟩)
    rw [inductionHypothesis (patch_putMods before here own first) there others rest,
      append_assoc, ← filterMap_append]
    congr 3
    rw [filterMap_cons]
    cases modPiece list with
    | none => rfl
    | some piece => rfl

theorem flatten_of_mapM {fields : List ConfigField} {pieces : List (List Piece)}
    (each : fields.mapM (fieldPieces language game values options) = .ok pieces) :
    pieces.flatten = fields.flatMap fun field =>
      (fieldPieces language game values options field).toOption.getD [] := by
  have both := forall₂_of_mapM each
  clear each
  induction both with
  | nil => rfl
  | cons here there inductionHypothesis =>
    rw [flatten_cons, flatMap_cons, inductionHypothesis, here]
    rfl

/-- A render writes each file what goes into it, in order. -/
theorem renderConfig_files {version : Option GameVersion}
    (made : renderConfig language game values version options = .ok rendered)
    (fits : ∀ piece ∈ written language game values options, PieceOf formatOf piece)
    (elsewhere : ∀ list ∈ modLists game options, ∀ kind path,
      list.1 = some (.whole kind path) → path ≠ file) :
    rendered.files.get file =
      patchOf formatOf file (writtenTo language game values options file) := by
  unfold renderConfig at made
  obtain ⟨pieces, each, rest⟩ := ok_of_bind made
  unfold written at fits
  rw [← flatten_of_mapM each] at fits
  have parts : ∀ {first second third : List Piece}, (∀ piece ∈ first ++ second ++ third,
      PieceOf formatOf piece) → (∀ piece ∈ first, PieceOf formatOf piece) ∧
        (∀ piece ∈ second, PieceOf formatOf piece) ∧
        ∀ piece ∈ third, PieceOf formatOf piece := by
    intro first second third all
    obtain ⟨both, last⟩ := forall_mem_append.mp all
    obtain ⟨one, two⟩ := forall_mem_append.mp both
    exact ⟨one, two, last⟩
  obtain ⟨lines, settings, mods⟩ := parts fits
  have start : (beginning game version options).files.get file =
      patchOf formatOf file ([] ++ (game.install.lines options.creating).filterMap
        (Piece.into file)) := by
    unfold beginning
    exact patch_foldl_put rfl lines
  rw [renderMods_eq] at rest
  rw [patch_modLists (patch_foldl_put start settings) elsewhere mods rest]
  unfold writtenTo written
  rw [← flatten_of_mapM each, filterMap_append, filterMap_append, nil_append]

theorem modPiece_of (orderly : Orderly language game values options formatOf)
    {list : Option ModTarget × List (List Char)} (member : list ∈ modLists game options)
    {piece : Piece} (made : modPiece list = some piece)
    (clean : ∀ file key separator, list.1 = some (.key file key separator) →
      formatOf file = .properties → '\n' ∉ separator → '\n' ∉ separator.intercalate list.2) :
    PieceOf formatOf piece := by
  unfold modPiece at made
  split at made
  · rename_i path key separator is
    obtain rfl := some.inj made
    obtain ⟨format, fits, between⟩ := orderly.mods list member path key separator is
    refine ⟨format, ?_⟩
    rw [format]
    exact ⟨fits, clean path key separator is format between⟩
  · cases made

/-- When no text that is written as it is breaks a line, every piece fits its file. -/
theorem written_of (spells : language.Spells)
    (orderly : Orderly language game values options formatOf)
    (unbroken : ∀ field ∈ game.config, leftAlone options field = false →
      settingShown game field ((defaultsFor game).merge values) = true →
      field.target.Unbroken (asText language (valueIn values field)))
    (clean : ∀ list ∈ modLists game options, ∀ file key separator,
      list.1 = some (.key file key separator) → formatOf file = .properties →
      '\n' ∉ separator → '\n' ∉ separator.intercalate list.2) :
    ∀ piece ∈ written language game values options, PieceOf formatOf piece := by
  intro piece member
  unfold written at member
  rcases mem_append.mp member with front | mod
  · rcases mem_append.mp front with line | setting
    · exact lines_of orderly piece line
    · obtain ⟨field, inside, there⟩ := mem_flatMap.mp setting
      cases made : fieldPieces language game values options field with
      | error failure =>
        rw [made] at there
        exact absurd there not_mem_nil
      | ok pieces =>
        rw [made] at there
        exact fieldPieces_of spells (orderly.targets field inside) (unbroken field inside)
          made piece there
  · obtain ⟨list, inside, made⟩ := mem_filterMap.mp mod
    exact modPiece_of orderly inside made (clean list inside)

end Tracked

end Geeboard.Games
