/-
This file is about what a setting's value can change in a file: its own key.

A render's patches are made of entries, and an entry fits its file's format when
the format can hold its key and its value is of one line. Patches of entries that
fit leave every other assignment of the file as its format's own reader reads it.
What the checks of values let through fits but for line breaks: a text of several
lines that a properties file or an INI file gets becomes lines of that file.
-/

import Geeboard.Text.Separated
import Geeboard.Games.LuaFrames
import Geeboard.Games.NamedSections
import Geeboard.Systems.Results

namespace Geeboard.Games

open Text List
open Systems

/-! ### Reading by format -/

/-- What a file of a format holds for a key, of a section or of a table where it has those. -/
def Format.reads (language : Language) (format : Format) (content section_ key : List Char) :
    Option (List Char) :=
  match format with
  | .properties => readProperty content key
  | .ini => readIniValue content section_ key
  | .lua => readLuaValue content section_ key
  | .cvar => readCvar language content key
  | .json => none
  | .whole => none

/-- Whether an entry of a patch names a key. -/
def Entry.Names (language : Language) (format : Format) (section_ key : List Char)
    (entry : Entry) : Prop :=
  match format with
  | .properties => entry.key = key
  | .ini => entry.section_ = section_ ∧ entry.key = key
  | .lua => LuaNames section_ key entry
  | .cvar => language.lowerCase entry.key = language.lowerCase key
  | .json => True
  | .whole => True

/-- What a file of a format can hold: a key of it, and a value of one line. -/
def Entry.Fits (format : Format) (entry : Entry) : Prop :=
  match format with
  | .properties => PropertyKey entry.key ∧ '\n' ∉ entry.value
  | .ini => (']' ∉ entry.section_ ∧ '\n' ∉ entry.section_) ∧ IniKey entry.key ∧ '\n' ∉ entry.value
  | .lua => LuaName entry.section_ ∧ (∀ char ∈ entry.key, isDottedChar char = true) ∧
      '\n' ∉ entry.value ∧ (entry.key ≠ [] → LuaLiteral entry.value)
  | .cvar => entry.key ≠ [] ∧ (∀ char ∈ entry.key, isWordChar char = true) ∧ '\n' ∉ entry.value
  | .json => True
  | .whole => True

/-- A patch of entries that fit leaves every key it does not name. -/
theorem applyPatch_other {language : Language} {patch : ConfigFilePatch}
    {existing content section_ key : List Char}
    (fits : ∀ entry ∈ patch.entries, entry.Fits patch.format) (settled : Settled existing)
    (outside : patch.format = .lua → ∀ entry ∈ patch.entries, entry.key = [] →
      Outside entry.section_ existing)
    (applied : applyPatch language patch existing = .ok content)
    (unnamed : ∀ entry ∈ patch.entries, ¬ entry.Names language patch.format section_ key) :
    patch.format.reads language content section_ key =
      patch.format.reads language existing section_ key := by
  unfold applyPatch at applied
  cases format : patch.format with
  | properties =>
    simp only [format] at applied fits unnamed
    cases applied
    exact readProperty_other ⟨fun entry member => (fits entry member).1, fun entry member =>
      (fits entry member).2⟩ settled unnamed
  | ini =>
    simp only [format] at applied fits unnamed
    cases applied
    exact readIniValue_other (iniEntries_of_keys (fun entry member => (fits entry member).1)
      (fun entry member => (fits entry member).2.1) fun entry member => (fits entry member).2.2)
        settled unnamed
  | lua =>
    simp only [format] at applied fits unnamed
    exact readLuaValue_other ⟨fun entry member => (fits entry member).1, fun entry member =>
      (fits entry member).2.1, fun entry member => (fits entry member).2.2.1, fun entry member =>
      (fits entry member).2.2.2⟩ settled (outside format) unnamed applied
  | cvar =>
    simp only [format] at applied fits unnamed
    cases applied
    exact readCvar_other ⟨fun entry member => (fits entry member).1, fun entry member =>
      (fits entry member).2.1, fun entry member => (fits entry member).2.2⟩ settled unnamed
  | json => rfl
  | whole => rfl

/-! ### Texts of one line -/

/-- How the language writes numbers: from a digit or a sign, on one line. -/
structure Language.Spells (language : Language) : Prop where
  first : ∀ value, ∃ char rest, language.numberText value = char :: rest ∧
    (char = '-' ∨ char.isDigit = true)
  line : ∀ value, '\n' ∉ language.numberText value

theorem clean_flatMap {escape : Char → List Char} (clean : ∀ char, '\n' ∉ escape char)
    (text : List Char) : '\n' ∉ text.flatMap escape := by
  intro member
  obtain ⟨char, -, inside⟩ := mem_flatMap.mp member
  exact clean char inside

theorem clean_escapeLua (char : Char) : '\n' ∉ escapeLua char := by
  unfold escapeLua
  split
  any_goals decide
  rename_i feed
  exact fun member => feed (mem_singleton.mp member).symm

theorem digitChar_ne_feed : ∀ value < 16, '\n' ≠ Nat.digitChar value := by decide

theorem clean_escapeJson (char : Char) : '\n' ∉ escapeJson char := by
  unfold escapeJson
  split
  any_goals decide
  rename_i feed _ _
  split
  · simp only [mem_cons, not_mem_nil, or_false, not_or]
    exact ⟨by decide, by decide, by decide, by decide, digitChar_ne_feed _ (by omega),
      digitChar_ne_feed _ (by omega)⟩
  · exact fun member => feed (mem_singleton.mp member).symm

theorem clean_jsonText (text : List Char) : '\n' ∉ jsonText text := by
  have inside := clean_flatMap clean_escapeJson text
  unfold jsonText
  simp [inside]

theorem clean_javaProperty {text : List Char} (clean : '\n' ∉ text) : '\n' ∉ javaProperty text := by
  have escaped : '\n' ∉ text.flatMap fun char => if char = '\\' then ['\\', '\\'] else [char] := by
    intro member
    obtain ⟨char, there, inside⟩ := mem_flatMap.mp member
    split at inside
    · exact absurd inside (by decide)
    · exact clean (mem_singleton.mp inside ▸ there)
  unfold javaProperty
  split
  · rename_i rest same
    rw [same] at escaped
    simp only [mem_cons, not_or] at escaped ⊢
    exact ⟨by decide, by decide, escaped.2⟩
  · rename_i rest same
    rw [same] at escaped
    simp only [mem_cons, not_or] at escaped ⊢
    exact ⟨by decide, by decide, escaped.2⟩
  · exact escaped

theorem clean_propertyText {prefix_ : Option (List Char)} {java json : Bool} {text : List Char}
    (front : '\n' ∉ prefix_.getD []) (clean : json = false → '\n' ∉ text) :
    '\n' ∉ propertyText prefix_ java json text := by
  have quoted : '\n' ∉ if json && !text.isEmpty then jsonText text else text := by
    split
    · exact clean_jsonText text
    · rename_i plain
      cases json with
      | false => exact clean rfl
      | true =>
        have empty : text = [] := by simpa using plain
        rw [empty]
        exact not_mem_nil
  have whole : '\n' ∉ prefix_.getD [] ++ if json && !text.isEmpty then jsonText text else text := by
    rw [mem_append, not_or]
    exact ⟨front, quoted⟩
  unfold propertyText
  dsimp only
  split
  · exact clean_javaProperty whole
  · exact whole

theorem luaLiteral_of_first {char : Char} {rest : List Char} (solid : isSpace char = false)
    (brace : char ≠ '{') (letter : char ≠ 'r') : LuaLiteral (char :: rest) := by
  refine ⟨⟨char, rest, rfl, solid, brace⟩, fun begins => letter ?_⟩
  obtain ⟨more, same⟩ := begins
  exact (cons.inj same).1.symm

theorem luaLiteral_number {char : Char} {rest : List Char} (sign : char = '-' ∨ char.isDigit = true) :
    LuaLiteral (char :: rest) := by
  rcases sign with rfl | digit
  · exact luaLiteral_of_first (by decide) (by decide) (by decide)
  · refine luaLiteral_of_first ?_ ?_ ?_
    · have word : char.isAlphanum = true := by
        unfold Char.isAlphanum
        rw [digit, Bool.or_true]
      exact not_isSpace_of_ascii (toNat_of_isAlphanum word).1 (toNat_of_isAlphanum word).2
    · rintro rfl
      exact absurd digit (by decide)
    · rintro rfl
      exact absurd digit (by decide)

theorem first_of_readsAsNumber {text : List Char} (number : readsAsNumber text = true) :
    ∃ char rest, text = char :: rest ∧ (char = '-' ∨ char.isDigit = true) := by
  cases text with
  | nil => cases number
  | cons char rest =>
    refine ⟨char, rest, rfl, ?_⟩
    by_cases sign : char = '-'
    · exact Or.inl sign
    · refine Or.inr ?_
      by_contra digit
      unfold readsAsNumber at number
      have unsigned : ¬ (char :: rest).head? = some '-' := fun same => sign (Option.some.inj same)
      rw [if_neg unsigned] at number
      dsimp only at number
      rw [takeWhile_cons_of_neg digit] at number
      cases number

theorem clean_of_readsAsNumber {text : List Char} (number : readsAsNumber text = true) :
    '\n' ∉ text := by
  have digits : ∀ part : List Char, (∀ char ∈ part, char.isDigit = true) → '\n' ∉ part :=
    fun part all member => absurd (all _ member) (by decide)
  have unsigned : '\n' ∉ if text.head? = some '-' then text.tail else text := by
    unfold readsAsNumber at number
    dsimp only at number
    rw [← takeWhile_append_dropWhile (p := Char.isDigit)
      (l := if text.head? = some '-' then text.tail else text), mem_append, not_or]
    refine ⟨digits _ fun char member => mem_takeWhile_imp member, ?_⟩
    obtain ⟨-, behind⟩ := Bool.and_eq_true_iff.mp number
    rcases Bool.or_eq_true_iff.mp behind with none_ | fraction
    · rw [List.isEmpty_iff.mp none_]
      exact not_mem_nil
    · simp only [Bool.and_eq_true, beq_iff_eq] at fraction
      obtain ⟨⟨point, -⟩, all⟩ := fraction
      cases rest : List.dropWhile Char.isDigit
          (if text.head? = some '-' then text.tail else text) with
      | nil => exact not_mem_nil
      | cons char more =>
        rw [rest] at point all
        obtain rfl := Option.some.inj point
        rw [mem_cons, not_or]
        exact ⟨by decide, digits _ (List.all_eq_true.mp all)⟩
  cases text with
  | nil => exact not_mem_nil
  | cons char rest =>
    split at unsigned
    · rename_i sign
      obtain rfl := Option.some.inj sign
      rw [mem_cons, not_or]
      exact ⟨by decide, unsigned⟩
    · exact unsigned

section Literals

variable {language : Language}

theorem asLua_literal (spells : language.Spells) (value : ConfigValue) :
    LuaLiteral (asLua language value) ∧ '\n' ∉ asLua language value := by
  cases value with
  | string text =>
    unfold asLua
    dsimp only
    split
    · rename_i number
      obtain ⟨char, rest, same, sign⟩ := first_of_readsAsNumber number
      exact ⟨same ▸ luaLiteral_number sign, clean_of_readsAsNumber number⟩
    · refine ⟨luaLiteral_of_first (by decide) (by decide) (by decide), ?_⟩
      have inside := clean_flatMap clean_escapeLua text
      simp [inside]
  | number value =>
    obtain ⟨char, rest, same, sign⟩ := spells.first value
    refine ⟨?_, spells.line value⟩
    unfold asLua asText
    dsimp only
    rw [same]
    exact luaLiteral_number sign
  | boolean value =>
    cases value with
    | false =>
      exact ⟨luaLiteral_of_first (by decide) (by decide) (by decide),
        (by decide : '\n' ∉ "false".toList)⟩
    | true =>
      exact ⟨luaLiteral_of_first (by decide) (by decide) (by decide),
        (by decide : '\n' ∉ "true".toList)⟩

end Literals

/-! ### What a definition may name -/

/-- An assignment that goes with another when that gets this text: a key, and a literal for it. -/
structure Companion.Orderly (text : List Char) (extra : Companion) : Prop where
  some_ : extra.key ≠ []
  key : ∀ char ∈ extra.key, isDottedChar char = true
  value : extra.byValue = none → ∀ literal, extra.value = some literal →
    LuaLiteral literal ∧ '\n' ∉ literal
  byValue : ∀ literals literal, extra.byValue = some literals → literals.get text = some literal →
    LuaLiteral literal ∧ '\n' ∉ literal

/-- A target that its format can hold, when it gets this text. -/
def ConfigTarget.Orderly (formatOf : String → Format) (text : List Char) : ConfigTarget → Prop
  | .properties file key prefix_ _ _ =>
    formatOf file = .properties ∧ PropertyKey key ∧ '\n' ∉ prefix_.getD []
  | .ini file section_ key =>
    formatOf file = .ini ∧ (']' ∉ section_ ∧ '\n' ∉ section_) ∧ IniKey key
  | .lua file table key also =>
    formatOf file = .lua ∧ LuaName table ∧ (key ≠ [] ∧ ∀ char ∈ key, isDottedChar char = true) ∧
      ∀ extra ∈ also, extra.Orderly text
  | .luaBase file table prefix_ => formatOf file = .lua ∧ LuaName table ∧ '\n' ∉ prefix_
  | .cvar file name => formatOf file = .cvar ∧ name ≠ [] ∧ ∀ char ∈ name, isWordChar char = true
  | .json file _ => formatOf file = .json
  | .env _ _ => True
  | .arg _ => True

/-- The lists of mods that a render writes, each with where it goes. -/
def modLists (game : GameDefinition) (options : RenderOptions) :
    List (Option ModTarget × List (List Char)) :=
  match game.mods, options.mods with
  | some support, some mods =>
    [(some support.items, mods.items), (support.enabled, mods.enabled),
      (support.clients, mods.items)]
  | _, _ => []

/-- A setting that a render writes something for. -/
def IsWritten (language : Language) (game : GameDefinition) (values : ConfigValues)
    (options : RenderOptions) (field : ConfigField) : Prop :=
  ∃ piece pieces, fieldPieces language game values options field = .ok (piece :: pieces)

/-- What a render writes can be held where the definition names it, and no file gets two formats.
What the render does not write may be named in any way. -/
structure Orderly (language : Language) (game : GameDefinition) (values : ConfigValues)
    (options : RenderOptions) (formatOf : String → Format) : Prop where
  targets : ∀ field ∈ game.config, IsWritten language game values options field →
    field.target.Orderly formatOf (asText language (valueIn values field))
  lines : ∀ env files, game.install = .image env files → ∀ fixed ∈ files,
    (fixed.creating = true → options.creating = true) → ∀ pair ∈ fixed.entries.entries,
      formatOf fixed.file = .properties ∧ PropertyKey pair.1 ∧ '\n' ∉ pair.2
  mods : ∀ list ∈ modLists game options, ∀ file key separator,
    list.1 = some (.key file key separator) →
      formatOf file = .properties ∧ PropertyKey key ∧ '\n' ∉ separator

/-- A text that breaks no line where it is written as it is. -/
def ConfigTarget.Unbroken (text : List Char) : ConfigTarget → Prop
  | .properties _ _ _ _ inJson => inJson = false → '\n' ∉ text
  | .ini _ _ _ => '\n' ∉ text
  | .luaBase _ _ _ => '\n' ∉ text
  | _ => True

/-- No setting that is written, and no mod, breaks a line where it is written as it is. -/
structure Unbroken (language : Language) (game : GameDefinition) (values : ConfigValues)
    (options : RenderOptions) : Prop where
  fields : ∀ field ∈ game.config, leftAlone options field = false →
    settingShown game field ((defaultsFor game).merge values) = true →
    field.target.Unbroken (asText language (valueIn values field))
  mods : ∀ list ∈ modLists game options, ∀ file key separator,
    list.1 = some (.key file key separator) → ∀ id ∈ list.2, '\n' ∉ id

/-! ### What a render writes -/

/-- A piece that is an entry fits the format of its file. -/
def PieceOf (formatOf : String → Format) : Piece → Prop
  | .entry file format entry => formatOf file = format ∧ entry.Fits (formatOf file)
  | _ => True

/-- Every patch that is merged is of entries that fit the format of its file. -/
def FilesOf (formatOf : String → Format) (files : Record String ConfigFilePatch) : Prop :=
  ∀ file ∈ files.entries, file.2.format = .whole ∨
    file.2.format = formatOf file.1 ∧ ∀ entry ∈ file.2.entries, entry.Fits (formatOf file.1)

section Written

variable {language : Language} {game : GameDefinition} {formatOf : String → Format}
  {values : ConfigValues} {options : RenderOptions}

theorem filesOf_put {rendered : RenderedConfig} {piece : Piece}
    (before : FilesOf formatOf rendered.files) (fits : PieceOf formatOf piece) :
    FilesOf formatOf (rendered.put piece).files := by
  cases piece with
  | env name joined text => exact before
  | arg flag text => exact before
  | entry file format entry =>
    intro one member
    obtain ⟨same, entryOf⟩ := fits
    rcases Record.mem_setEntries member with rfl | old
    · dsimp only
      cases has : rendered.files.get file with
      | none =>
        refine Or.inr ⟨same.symm, fun one member => ?_⟩
        rw [mem_singleton.mp member]
        exact entryOf
      | some patch =>
        rcases before _ (Record.mem_of_get has) with whole | ⟨formatted, entries⟩
        · exact Or.inl whole
        · refine Or.inr ⟨formatted, fun one member => ?_⟩
          rcases mem_append.mp member with there | last
          · exact entries one there
          · exact mem_singleton.mp last ▸ entryOf
    · exact before one old

theorem filesOf_foldl_put {pieces : List Piece} {rendered : RenderedConfig}
    (before : FilesOf formatOf rendered.files)
    (fits : ∀ piece ∈ pieces, PieceOf formatOf piece) :
    FilesOf formatOf (pieces.foldl RenderedConfig.put rendered).files := by
  induction pieces generalizing rendered with
  | nil => exact before
  | cons piece pieces inductionHypothesis =>
    obtain ⟨here, there⟩ := forall_mem_cons.mp fits
    exact inductionHypothesis (filesOf_put before here) there

theorem unset_of {target : ConfigTarget} {text : List Char} (orderly : target.Orderly formatOf text) :
    ∀ piece ∈ unset target, PieceOf formatOf piece := by
  cases target with
  | cvar file name =>
    obtain ⟨format, some_, word⟩ := orderly
    intro piece member
    rw [mem_singleton.mp member]
    refine ⟨format, ?_⟩
    rw [format]
    exact ⟨some_, word, not_mem_nil⟩
  | _ => exact fun piece member => absurd member not_mem_nil

theorem companionPiece_of {field : ConfigField} {file : String} {table text : List Char}
    {extra : Companion} {piece : Piece} (format : formatOf file = .lua) (name : LuaName table)
    (orderly : extra.Orderly text)
    (written : companionPiece game field file table text extra = .ok piece) :
    PieceOf formatOf piece := by
  unfold companionPiece at written
  dsimp only at written
  split at written
  · rename_i literal is
    obtain rfl := Except.ok.inj written
    have literal_ : LuaLiteral literal ∧ '\n' ∉ literal := by
      split at is
      · rename_i literals by_
        exact orderly.byValue _ _ by_ is
      · rename_i by_
        exact orderly.value by_ _ is
    refine ⟨format, ?_⟩
    rw [format]
    exact ⟨name, orderly.key, literal_.2, fun _ => literal_.1⟩
  · cases written

theorem cvarValue_clean {text quoted : List Char} {label : String}
    (fits : cvarValue text label = .ok quoted) : '\n' ∉ quoted := by
  unfold cvarValue at fits
  split at fits
  · rename_i all
    rw [← Except.ok.inj fits]
    intro member
    exact absurd (List.all_eq_true.mp all _ member) (by decide)
  · cases fits

theorem targetPieces_of (spells : language.Spells) {field : ConfigField} {value : ConfigValue}
    {pieces : List Piece} (orderly : field.target.Orderly formatOf (asText language value))
    (unbroken : field.target.Unbroken (asText language value))
    (written : targetPieces language game field value = .ok pieces) :
    ∀ piece ∈ pieces, PieceOf formatOf piece := by
  unfold targetPieces at written
  dsimp only at written
  cases target : field.target with
  | env name joined =>
    simp only [target] at written
    cases written
    exact fun piece inside => mem_singleton.mp inside ▸ trivial
  | arg flag =>
    simp only [target] at written
    cases written
    exact fun piece inside => mem_singleton.mp inside ▸ trivial
  | json file pointer =>
    simp only [target] at written orderly
    cases written
    intro piece inside
    have format : formatOf file = .json := orderly
    rw [mem_singleton.mp inside]
    refine ⟨format, ?_⟩
    rw [format]
    exact trivial
  | properties file key prefix_ java json =>
    simp only [target] at written orderly unbroken
    cases written
    obtain ⟨format, fits, front⟩ := orderly
    intro piece inside
    rw [mem_singleton.mp inside]
    refine ⟨format, ?_⟩
    rw [format]
    exact ⟨fits, clean_propertyText front unbroken⟩
  | ini file section_ key =>
    simp only [target] at written orderly unbroken
    cases written
    obtain ⟨format, names, fits⟩ := orderly
    intro piece inside
    rw [mem_singleton.mp inside]
    refine ⟨format, ?_⟩
    rw [format]
    exact ⟨names, fits, unbroken⟩
  | lua file table key also =>
    simp only [target] at written orderly
    obtain ⟨format, name, ⟨some_, dotted⟩, extrasOrderly⟩ := orderly
    obtain ⟨extras, others, rest⟩ := ok_of_bind written
    cases rest
    refine forall_mem_cons.mpr ⟨⟨format, ?_⟩, ?_⟩
    · rw [format]
      have literal := asLua_literal spells value
      exact ⟨name, dotted, literal.2, fun _ => literal.1⟩
    · exact forall_of_mapM (fun extra inside piece made =>
        companionPiece_of format name (extrasOrderly extra inside) made) others
  | luaBase file table prefix_ =>
    simp only [target] at written orderly unbroken
    cases written
    obtain ⟨format, name, front⟩ := orderly
    intro piece inside
    rw [mem_singleton.mp inside]
    refine ⟨format, ?_⟩
    rw [format]
    refine ⟨name, fun _ nothing => absurd nothing not_mem_nil, ?_, fun keyed =>
      absurd rfl keyed⟩
    dsimp only
    rw [mem_append, not_or]
    exact ⟨front, unbroken⟩
  | cvar file name =>
    simp only [target] at written orderly
    obtain ⟨format, some_, word⟩ := orderly
    obtain ⟨quoted, fits, rest⟩ := ok_of_bind written
    cases rest
    intro piece inside
    rw [mem_singleton.mp inside]
    refine ⟨format, ?_⟩
    rw [format]
    exact ⟨some_, word, cvarValue_clean fits⟩

theorem fieldPieces_of (spells : language.Spells) {field : ConfigField} {pieces : List Piece}
    (orderly : IsWritten language game values options field →
      field.target.Orderly formatOf (asText language (valueIn values field)))
    (unbroken : leftAlone options field = false →
      settingShown game field ((defaultsFor game).merge values) = true →
      field.target.Unbroken (asText language (valueIn values field)))
    (written : fieldPieces language game values options field = .ok pieces) :
    ∀ piece ∈ pieces, PieceOf formatOf piece := by
  cases pieces with
  | nil => exact fun piece inside => absurd inside not_mem_nil
  | cons first others =>
    have holds := orderly ⟨first, others, written⟩
    unfold fieldPieces at written
    dsimp only at written
    split at written
    · cases written
    · rename_i taken
      split at written
      · rw [← Except.ok.inj written]
        exact unset_of holds
      · rename_i shown
        split at written
        · split at written
          · rw [← Except.ok.inj written]
            exact unset_of holds
          · cases written
        · split at written
          · cases written
          · exact targetPieces_of spells holds
              (unbroken (by simpa using taken) (by simpa using shown)) written

theorem putMods_of {rendered later : RenderedConfig} {list : Option ModTarget × List (List Char)}
    (before : FilesOf formatOf rendered.files)
    (fits : ∀ file key separator, list.1 = some (.key file key separator) →
      formatOf file = .properties ∧ PropertyKey key ∧ '\n' ∉ separator)
    (clean : ∀ file key separator, list.1 = some (.key file key separator) →
      ∀ id ∈ list.2, '\n' ∉ id)
    (put : putMods rendered list = .ok later) : FilesOf formatOf later.files := by
  unfold putMods at put
  split at put
  · cases put
    exact before
  · rename_i file key separator is
    cases put
    obtain ⟨format, key_, between⟩ := fits file key separator is
    refine filesOf_put before ⟨format, ?_⟩
    rw [format]
    refine ⟨key_, fun member => ?_⟩
    rcases mem_intercalate member with separators | ⟨id, there, inside⟩
    · exact between separators
    · exact clean file key separator is id there inside
  · obtain ⟨content, -, rest⟩ := ok_of_bind put
    cases rest
    intro one member
    rcases Record.mem_setEntries member with rfl | old
    · exact Or.inl rfl
    · exact before one old

theorem renderMods_eq (rendered : RenderedConfig) :
    renderMods game options rendered = (modLists game options).foldlM putMods rendered := by
  unfold renderMods modLists
  cases game.mods with
  | none => rfl
  | some support =>
    cases options.mods with
    | none => rfl
    | some mods => rfl

theorem renderMods_of {rendered later : RenderedConfig}
    (before : FilesOf formatOf rendered.files)
    (orderly : Orderly language game values options formatOf)
    (unbroken : Unbroken language game values options)
    (put : renderMods game options rendered = .ok later) : FilesOf formatOf later.files := by
  rw [renderMods_eq] at put
  exact kept_of_foldlM (fun between => FilesOf formatOf between.files)
    (fun between list member next files put =>
      putMods_of files (orderly.mods list member) (unbroken.mods list member) put) before put

theorem lines_of (orderly : Orderly language game values options formatOf) :
    ∀ piece ∈ game.install.lines options.creating, PieceOf formatOf piece := by
  intro piece member
  unfold InstallStrategy.lines at member
  split at member
  · rename_i env files install
    obtain ⟨fixed, inside, there⟩ := mem_flatMap.mp member
    obtain ⟨pair, within, rfl⟩ := List.mem_map.mp there
    obtain ⟨named, asked⟩ := mem_filter.mp inside
    obtain ⟨format, fits⟩ := orderly.lines env files install fixed named
      (fun new => by simpa [new] using asked) pair within
    refine ⟨format, ?_⟩
    rw [format]
    exact fits
  · cases member

/-- Every patch of a render is of entries that fit their file. -/
theorem renderConfig_of (spells : language.Spells) {version : Option GameVersion}
    (orderly : Orderly language game values options formatOf)
    (unbroken : Unbroken language game values options) {rendered : RenderedConfig}
    (made : renderConfig language game values version options = .ok rendered) :
    FilesOf formatOf rendered.files := by
  unfold renderConfig at made
  obtain ⟨pieces, written, rest⟩ := ok_of_bind made
  refine renderMods_of (filesOf_foldl_put ?_ ?_) orderly unbroken rest
  · unfold beginning
    exact filesOf_foldl_put (fun file member => absurd member not_mem_nil)
      (lines_of orderly)
  · intro piece member
    obtain ⟨some_, inside, there⟩ := mem_flatten.mp member
    obtain ⟨field, within, wrote⟩ := exists_of_mem_mapM written some_ inside
    exact fieldPieces_of spells (orderly.targets field within)
      (unbroken.fields field within) wrote piece there

end Written

/-! ### One key a setting -/

/-- When no text that is written as it is breaks a line, a patch changes the keys it names and no
other: whatever else the file assigns reads as before, and nothing else is assigned. -/
theorem other_keys_read_as_before (language : Language) (game : GameDefinition)
    (values : ConfigValues) (version : Option GameVersion) (options : RenderOptions)
    (formatOf : String → Format) (spells : language.Spells)
    (orderly : Orderly language game values options formatOf)
    (unbroken : Unbroken language game values options) (rendered : RenderedConfig)
    (made : renderConfig language game values version options = .ok rendered) (path : String)
    (patch : ConfigFilePatch) (has : rendered.files.get path = some patch)
    (existing content : List Char) (settled : Settled existing)
    (outside : patch.format = .lua → ∀ entry ∈ patch.entries, entry.key = [] →
      Outside entry.section_ existing)
    (applied : applyPatch language patch existing = .ok content) (section_ key : List Char)
    (unnamed : ∀ entry ∈ patch.entries, ¬ entry.Names language patch.format section_ key) :
    patch.format.reads language content section_ key =
      patch.format.reads language existing section_ key := by
  rcases renderConfig_of spells orderly unbroken made _ (Record.mem_of_get has) with
    whole | ⟨format, entries⟩
  · rw [whole]
    rfl
  · refine applyPatch_other (fun entry member => ?_) settled outside applied unnamed
    rw [format]
    exact entries entry member

/-! ### A text of one line, and a text of two -/

/-- A game with a text of several lines in a properties file. -/
def noteGame : GameDefinition where
  id := "game"
  name := "Game"
  versions := [{ id := "1", image := "game:1" }]
  config := [
    { key := "motd", label := "Message", type := .text, default := .string []
      target := .properties "server.properties" "motd".toList none false false }]

def noted (text : List Char) : ConfigValues := .ofEntries [("motd", .string text)]

def notePatch (text : List Char) : ConfigFilePatch :=
  ⟨"server.properties", .properties, [⟨[], "motd".toList, text, false⟩]⟩

def noteRendered (text : List Char) : RenderedConfig :=
  ⟨.empty, .ofEntries [("server.properties", notePatch text)], []⟩

theorem isDigit_of_mem_toDigits (value : Nat) : ∀ char ∈ Nat.toDigits 10 value, char.isDigit = true :=
  fun char member => Nat.isDigit_of_mem_toDigits (by decide) (by decide) member

theorem ascii_spells : ascii.Spells := by
  have digits : ∀ value, ∃ char rest, Nat.toDigits 10 value = char :: rest ∧
      char.isDigit = true := by
    intro value
    obtain ⟨char, rest, same⟩ := exists_cons_of_ne_nil
      (Nat.toDigits_ne_nil : Nat.toDigits 10 value ≠ [])
    exact ⟨char, rest, same, isDigit_of_mem_toDigits value char (same ▸ mem_cons_self)⟩
  have line : ∀ value, '\n' ∉ Nat.toDigits 10 value := fun value member =>
    absurd (isDigit_of_mem_toDigits value _ member) (by decide)
  constructor
  · intro value
    show ∃ char rest, inBase 10 value.num = char :: rest ∧ _
    unfold inBase
    split
    · exact ⟨'-', _, rfl, Or.inl rfl⟩
    · obtain ⟨char, rest, same, digit⟩ := digits value.num.natAbs
      exact ⟨char, rest, same, Or.inr digit⟩
  · intro value
    show '\n' ∉ inBase 10 value.num
    unfold inBase
    split
    · rw [mem_cons, not_or]
      exact ⟨by decide, line _⟩
    · exact line _

theorem noteGame_orderly {values : ConfigValues} {options : RenderOptions} :
    Orderly ascii noteGame values options fun _ => .properties := by
  refine ⟨fun field member _ => ?_, fun env files install fixed member => ?_,
    fun list member => ?_⟩
  · rw [mem_singleton.mp member]
    exact ⟨rfl, ⟨cons_ne_nil _ _, List.all_eq_true.mp rfl⟩, not_mem_nil⟩
  · cases install
    cases member
  · cases member

/-- A message of one line leaves the level that a file sets. -/
theorem other_keys_read_as_before_note :
    Format.properties.reads ascii "level=world\n\nmotd=hello\n".toList [] "level".toList =
      Format.properties.reads ascii "level=world\n".toList [] "level".toList :=
  other_keys_read_as_before ascii noteGame (noted "hello".toList) none { includeEmpty := true }
    (fun _ => .properties) ascii_spells noteGame_orderly
    ⟨fun field member _ _ => by
      rw [mem_singleton.mp member]
      exact fun _ => by decide +kernel, by rintro list ⟨⟩⟩
    (noteRendered "hello".toList) (by rfl) "server.properties" (notePatch "hello".toList) (by rfl)
    "level=world\n".toList "level=world\n\nmotd=hello\n".toList
    (by unfold Settled; decide +kernel) nofun (by rfl) [] "level".toList (by
      intro entry member
      rw [mem_singleton.mp member]
      exact (by decide +kernel : "motd".toList ≠ "level".toList))

/-- A message of two lines sets a password. -/
theorem note_sets_password :
    auditDefinition ascii noteGame = [] ∧
      validateConfig ascii (fun _ _ => true) noteGame (noted "hello\nrcon.password=x".toList) = [] ∧
      ∃ rendered patch content,
        renderConfig ascii noteGame (noted "hello\nrcon.password=x".toList) none {} = .ok rendered ∧
        rendered.files.get "server.properties" = some patch ∧
        applyPatch ascii patch "level=world\n".toList = .ok content ∧
        (∀ entry ∈ patch.entries, ¬ entry.Names ascii patch.format [] "rcon.password".toList) ∧
        patch.format.reads ascii "level=world\n".toList [] "rcon.password".toList = none ∧
        patch.format.reads ascii content [] "rcon.password".toList = some ['x'] := by
  refine ⟨by decide +kernel, by decide +kernel, noteRendered "hello\nrcon.password=x".toList,
    notePatch "hello\nrcon.password=x".toList,
    "level=world\n\nmotd=hello\nrcon.password=x\n".toList, by rfl, by rfl, by rfl, ?_,
    by decide +kernel, by decide +kernel⟩
  intro entry member
  rw [mem_singleton.mp member]
  exact (by decide +kernel : "motd".toList ≠ "rcon.password".toList)

end Geeboard.Games
