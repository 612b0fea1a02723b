/-
This file is about whether the settings of a game keep to their own keys: after all
the patches of a render are applied, each key holds the text of its own setting.

A text that a file gives back was one that its format's reader takes back, so a
setting that keeps its text wrote such a text, and what decides its key writes the
same one. Nothing in the audit of a definition keeps two settings from the same key.
-/

import Geeboard.Games.Prevailing

namespace Geeboard.Games

open Text List Option
open Systems

/-! ### What is taken back -/

section Raw

variable {language : Language} {content section_ key value : List Char}

theorem solid_dropWhile (text : List Char) :
    (text.dropWhile isSpace).head?.all (fun char => !isSpace char) = true := by
  cases same : text.dropWhile isSpace with
  | nil => rfl
  | cons char rest =>
    have some_ : text.dropWhile isSpace ≠ [] := same ▸ cons_ne_nil _ _
    have first := head_dropWhile_not isSpace some_
    simp only [same, head_cons] at first
    simpa using first

theorem legible_pair {isFirst isKey : Char → Bool} {line : Line} {pair : Pair}
    (read : pairOf isFirst isKey line = some pair) : Legible pair.value := by
  refine ⟨(pairOf_makes read).value, ?_⟩
  unfold pairOf at read
  dsimp only at read
  split at read
  · rename_i separator value signed
    obtain ⟨-, same⟩ := ite_none_right_eq_some.mp read
    obtain ⟨-, -, dropped⟩ := separatorOf_some signed
    obtain rfl := some.inj same
    rw [← dropped]
    exact solid_dropWhile value
  · cases read

theorem legible_iniPair {line : Line} {pair : Pair} (read : iniPair line = some pair) :
    Legible pair.value := by
  unfold iniPair at read
  dsimp only at read
  split at read
  · rename_i sign rest same
    obtain ⟨fits, made⟩ := ite_none_right_eq_some.mp read
    obtain rfl := some.inj made
    exact ⟨(Bool.and_eq_true_iff.mp fits).2, solid_dropWhile rest⟩
  · cases read

theorem rawOf_some {pair : Option Pair} (raw : rawOf content pair = some value) :
    ∃ found, pair = some found ∧ found.value = value := by
  obtain ⟨found, kept, same⟩ := map_eq_some_iff.mp raw
  exact ⟨found, (filter_eq_some_iff.mp kept).1, same⟩

theorem legible_rawProperty (raw : rawProperty content key = some value) : Legible value := by
  obtain ⟨line, -, -, given⟩ := exists_of_lastGiven raw
  obtain ⟨pair, read, rfl⟩ := rawOf_some given
  exact legible_pair read

theorem legible_rawIniValue (raw : rawIniValue content section_ key = some value) :
    Legible value := by
  obtain ⟨line, -, state, given⟩ := exists_of_lastGiven raw
  unfold iniRaw at given
  split at given
  · cases given
  · obtain ⟨pair, read, rfl⟩ := rawOf_some given
    exact legible_iniPair read

theorem plain_uncommented {rest : List Char} :
    ∀ char ∈ cvarText.uncommented rest, char ∈ rest := by
  fun_induction cvarText.uncommented rest with
  | case1 => exact fun _ member => absurd member not_mem_nil
  | case2 char text _ inductionHypothesis =>
    intro one member
    rcases mem_cons.mp member with rfl | later
    · exact mem_cons_self
    · exact mem_cons_of_mem _ (inductionHypothesis one later)
  | case3 => exact fun _ member => absurd member not_mem_nil

theorem plain_readCvar (raw : readCvar language content key = some value) :
    value.all isPlain = true := by
  obtain ⟨line, -, -, given⟩ := exists_of_lastGiven raw
  obtain ⟨pair, kept, rfl⟩ := map_eq_some_iff.mp given
  have read := (filter_eq_some_iff.mp kept).1
  have plain : pair.value.all isPlain = true := by
    unfold cvarLine at read
    obtain ⟨fits, made⟩ := ite_none_right_eq_some.mp read
    obtain rfl := some.inj made
    exact (Bool.and_eq_true_iff.mp fits).2
  refine List.all_eq_true.mpr fun char member => List.all_eq_true.mp plain char ?_
  unfold cvarText at member
  split at member
  · rename_i quoted same
    rw [same]
    exact mem_cons_of_mem _ (takeWhile_subset _ member)
  · exact plain_uncommented char (takeWhile_subset _ member)

theorem plain_luaLiteral (raw : luaLiteral content section_ key = some value) :
    value.all isPlain = true := by
  obtain ⟨line, -, path, given⟩ := exists_of_lastGiven raw
  unfold luaGives at given
  split at given
  · rename_i pair kept
    have read := (filter_eq_some_iff.mp kept).1
    obtain rfl := some.inj given
    unfold luaDotted at read
    dsimp only at read
    split at read
    · obtain ⟨fits, made⟩ := ite_none_right_eq_some.mp read
      obtain rfl := some.inj made
      exact (Bool.and_eq_true_iff.mp fits).2
    · cases read
  · obtain ⟨found, kept, rfl⟩ := map_eq_some_iff.mp given
    have nested := (filter_eq_some_iff.mp kept).1
    unfold nestedKey at nested
    split at nested
    · cases nested
    · obtain ⟨made, read, rfl⟩ := map_eq_some_iff.mp nested
      unfold luaPair at read
      dsimp only at read
      split at read
      · obtain ⟨fits, same⟩ := ite_none_right_eq_some.mp read
        obtain rfl := some.inj same
        exact (Bool.and_eq_true_iff.mp fits).2
      · cases read

theorem mem_of_mem_skip {char bracket : Char} {text : List Char} (member : char ∈ skip bracket text) :
    char ∈ text := by
  unfold skip at member
  split at member
  · exact mem_of_mem_tail member
  · exact member

/-- The module of a line is text of the line. -/
theorem module_of_line {line : Line} {found : List Char × List Char × List Char}
    (read : luaBase line = some found) : '"' ∉ found.2.2 ∧ ∀ char ∈ found.2.2, char ∈ line := by
  unfold luaBase at read
  dsimp only at read
  split at read
  · rename_i separator text signed
    obtain ⟨-, whole, -⟩ := separatorOf_some signed
    split at read
    · rename_i rest began
      split at read
      · rename_i quoted opened
        split at read
        · obtain ⟨-, made⟩ := ite_none_right_eq_some.mp read
          obtain rfl := some.inj made
          refine ⟨fun member => absurd (mem_takeWhile_imp member) (by decide),
            fun char member => ?_⟩
          have inQuotes : char ∈ '"' :: quoted :=
            mem_cons_of_mem _ (takeWhile_subset _ member)
          rw [← opened] at inQuotes
          have inRest : char ∈ rest :=
            dropWhile_subset _ (mem_of_mem_skip (dropWhile_subset _ inQuotes))
          have inText : char ∈ text := by
            unfold after at began
            obtain ⟨-, same⟩ := ite_none_right_eq_some.mp began
            exact drop_subset _ _ (some.inj same ▸ inRest)
          have behindName : char ∈ (line.dropWhile isSpace).dropWhile isWordChar := by
            rw [whole]
            exact mem_append_right _ inText
          exact dropWhile_subset _ (dropWhile_subset _ behindName)
        · cases read
      · cases read
    · cases read
  · cases read

theorem clean_module (raw : readLuaValue content section_ [] = some value) :
    '"' ∉ value ∧ '\n' ∉ value := by
  unfold readLuaValue at raw
  rw [isEmpty_nil, if_pos rfl] at raw
  obtain ⟨line, inside, given⟩ := exists_of_findSome?_eq_some raw
  obtain ⟨found, kept, rfl⟩ := map_eq_some_iff.mp given
  obtain ⟨quotes, within⟩ := module_of_line (filter_eq_some_iff.mp kept).1
  exact ⟨quotes, fun member => clean_of_mem_splitLines inside (within _ member)⟩

end Raw

/-! ### Literals -/

/-- A character that numbers and words are written with. -/
def Figure (char : Char) : Prop :=
  char.isAlphanum = true ∨ char = '.' ∨ char = '-' ∨ char = '+'

/-- How the language writes numbers: in figures. -/
def Language.Figures (language : Language) : Prop :=
  ∀ value, ∀ char ∈ language.numberText value, Figure char

theorem Figure.solid {char : Char} (figure : Figure char) : isSpace char = false ∧ char ≠ ',' := by
  rcases figure with word | rfl | rfl | rfl
  · refine ⟨not_isSpace_of_ascii (toNat_of_isAlphanum word).1 (toNat_of_isAlphanum word).2, ?_⟩
    rintro rfl
    exact absurd word (by decide)
  · decide
  · decide
  · decide

theorem figures_of_digits {text : List Char} (digits : ∀ char ∈ text, char.isDigit = true) :
    ∀ char ∈ text, Figure char := by
  intro char member
  refine Or.inl ?_
  unfold Char.isAlphanum
  rw [digits char member, Bool.or_true]

theorem figures_of_readsAsNumber {text : List Char} (number : readsAsNumber text = true) :
    ∀ char ∈ text, Figure char := by
  have unsigned : ∀ char ∈ if text.head? = some '-' then text.tail else text, Figure char := by
    unfold readsAsNumber at number
    dsimp only at number
    obtain ⟨-, behind⟩ := Bool.and_eq_true_iff.mp number
    intro char member
    rw [← takeWhile_append_dropWhile (p := Char.isDigit)
      (l := if text.head? = some '-' then text.tail else text)] at member
    rcases mem_append.mp member with whole | rest
    · exact figures_of_digits (fun _ inside => mem_takeWhile_imp inside) char whole
    · rcases Bool.or_eq_true_iff.mp behind with none_ | fraction
      · rw [List.isEmpty_iff.mp none_] at rest
        cases rest
      · simp only [Bool.and_eq_true, beq_iff_eq] at fraction
        obtain ⟨⟨point, -⟩, all⟩ := fraction
        rw [cons_head?_tail point |>.symm] at rest
        rcases mem_cons.mp rest with rfl | after_
        · exact Or.inr (Or.inl rfl)
        · exact figures_of_digits (List.all_eq_true.mp all) char after_
  cases text with
  | nil => exact fun _ member => absurd member not_mem_nil
  | cons first rest =>
    split at unsigned
    · rename_i sign
      obtain rfl := some.inj sign
      exact forall_mem_cons.mpr ⟨Or.inr (Or.inr (Or.inl rfl)), unsigned⟩
    · exact unsigned

theorem luaLegible_of_last {value : List Char} {last : Char} (literal : LuaLiteral value)
    (plain : value.all isPlain = true) (ends : value.getLast? = some last)
    (solid : isSpace last = false) (other : last ≠ ',') : LuaLegible value := by
  refine ⟨literal, plain, ?_, fun comma => other (some.inj (ends.symm.trans comma))⟩
  obtain ⟨front, rfl⟩ := getLast?_eq_some_iff.mp ends
  exact rdropWhile_concat_neg _ _ _ (by rw [solid]; exact Bool.false_ne_true)

/-- A literal that the panel makes is taken back when it breaks no line. -/
theorem asLua_legible {language : Language} (spells : language.Spells) (figures : language.Figures)
    (value : ConfigValue) (plain : (asLua language value).all isPlain = true) :
    LuaLegible (asLua language value) := by
  have literal := (asLua_literal spells value).1
  obtain ⟨char, rest, some_, -, -⟩ := literal.first
  have ends : ∃ last, (asLua language value).getLast? = some last :=
    ⟨_, getLast?_eq_some_getLast (some_ ▸ cons_ne_nil _ _)⟩
  obtain ⟨last, ends⟩ := ends
  have member := mem_of_getLast? ends
  have drawn : (∀ char ∈ asLua language value, Figure char) → LuaLegible (asLua language value) :=
    fun all => luaLegible_of_last literal plain ends (all last member).solid.1
      (all last member).solid.2
  cases value with
  | string text =>
    by_cases number : readsAsNumber text = true
    · refine drawn ?_
      unfold asLua
      dsimp only
      rw [if_pos number]
      exact figures_of_readsAsNumber number
    · have quoted : last = '"' := by
        unfold asLua at ends
        dsimp only at ends
        rw [if_neg number, getLast?_concat] at ends
        exact (some.inj ends).symm
      exact luaLegible_of_last literal plain ends (quoted ▸ by decide) (quoted ▸ by decide)
  | number value => exact drawn (figures value)
  | boolean value =>
    refine drawn (fun char member => Or.inl ?_)
    cases value with
    | false => exact @List.all_eq_true _ Char.isAlphanum "false".toList |>.mp rfl char member
    | true => exact @List.all_eq_true _ Char.isAlphanum "true".toList |>.mp rfl char member

/-! ### A setting's own entry -/

section Own

variable {language : Language} {game : GameDefinition} {formatOf : String → Format}
  {values : ConfigValues} {options : RenderOptions} {field : ConfigField} {file : String}
  {format : Format} {own : Entry}

theorem unset_removes {target : ConfigTarget} {entry : Entry}
    (member : .entry file format entry ∈ unset target) : entry.remove = true := by
  cases target with
  | cvar path name =>
    have same := mem_singleton.mp member
    cases same
    rfl
  | _ => exact absurd member not_mem_nil

/-- What a setting's pieces are: those of its target, or the taking out of its cvar. -/
theorem fieldPieces_cases {pieces : List Piece}
    (written : fieldPieces language game values options field = .ok pieces) :
    (leftAlone options field = false ∧
      settingShown game field ((defaultsFor game).merge values) = true ∧
      targetPieces language game field (valueIn values field) = .ok pieces) ∨
      ∀ file format entry, .entry file format entry ∈ pieces → entry.remove = true := by
  have nothing : ∀ file format entry, Piece.entry file format entry ∈ ([] : List Piece) →
      entry.remove = true := fun _ _ _ member => absurd member not_mem_nil
  unfold fieldPieces at written
  dsimp only at written
  split at written
  · cases written
    exact Or.inr nothing
  · rename_i taken
    split at written
    · cases written
      exact Or.inr fun _ _ _ => unset_removes
    · rename_i shown
      split at written
      · cases written
        refine Or.inr ?_
        split
        · exact fun _ _ _ => unset_removes
        · exact nothing
      · split at written
        · cases written
          exact Or.inr nothing
        · exact Or.inl ⟨by simpa using taken, by simpa using shown, written⟩

theorem OwnEntry.target (owns : OwnEntry language game values options field file format own) :
    ∃ others, targetPieces language game field (valueIn values field) =
      .ok (.entry file format own :: others) := by
  obtain ⟨kept, others, written⟩ := owns
  rcases fieldPieces_cases written with ⟨-, -, target⟩ | removed
  · exact ⟨others, target⟩
  · rw [removed file format own mem_cons_self] at kept
    cases kept

theorem cvarValue_unquoted {text quoted : List Char} {label : String}
    (fits : cvarValue text label = .ok quoted) : '"' ∉ quoted := by
  unfold cvarValue at fits
  split at fits
  · rename_i all
    rw [← Except.ok.inj fits]
    exact fun member => absurd (List.all_eq_true.mp all _ member) (by decide)
  · cases fits

theorem OwnEntry.writtenTo (owns : OwnEntry language game values options field file format own)
    (member : field ∈ game.config) : own ∈ writtenTo language game values options file := by
  obtain ⟨-, others, pieces⟩ := owns
  refine mem_filterMap.mpr ⟨.entry file format own, ?_, if_pos rfl⟩
  refine mem_append_left _ (mem_append_right _ (mem_flatMap.mpr ⟨field, member, ?_⟩))
  rw [pieces]
  exact mem_cons_self

theorem OwnEntry.isWritten (owns : OwnEntry language game values options field file format own) :
    IsWritten language game values options field := by
  obtain ⟨-, others, pieces⟩ := owns
  exact ⟨_, others, pieces⟩

/-- A setting's text that its key holds is one that its format's reader takes back. -/
theorem OwnEntry.legible (owns : OwnEntry language game values options field file format own)
    {text : List Char} (orderly : field.target.Orderly formatOf text) (spells : language.Spells)
    (figures : language.Figures) {content : List Char}
    (raw : format.raw language content own.section_ own.key = some own.value) :
    own.Legible format := by
  obtain ⟨others, written⟩ := owns.target
  unfold targetPieces at written
  dsimp only at written
  cases target : field.target with
  | env name joined =>
    simp only [target] at written
    cases written
  | arg flag =>
    simp only [target] at written
    cases written
  | json path pointer =>
    simp only [target] at written
    cases written
    exact trivial
  | properties path key prefix_ java json =>
    simp only [target] at written
    cases written
    exact legible_rawProperty raw
  | ini path section_ key =>
    simp only [target] at written
    cases written
    exact legible_rawIniValue raw
  | lua path table key also =>
    simp only [target] at written orderly
    obtain ⟨extras, -, rest⟩ := ok_of_bind written
    cases rest
    refine ⟨fun keyless => absurd keyless orderly.2.2.1.1, fun keyed =>
      asLua_legible spells figures _ ?_⟩
    unfold Format.raw at raw
    dsimp only at raw
    rw [if_neg (by simpa using keyed)] at raw
    exact plain_luaLiteral raw
  | luaBase path table prefix_ =>
    simp only [target] at written
    cases written
    refine ⟨fun _ => clean_module raw, fun keyed => absurd rfl keyed⟩
  | cvar path name =>
    simp only [target] at written
    obtain ⟨quoted, fits, rest⟩ := ok_of_bind written
    cases rest
    exact ⟨plain_readCvar raw, cvarValue_unquoted fits⟩

theorem OwnEntry.formatted (owns : OwnEntry language game values options field file format own)
    {text : List Char} (orderly : field.target.Orderly formatOf text) : formatOf file = format ∧ format ≠ .whole := by
  obtain ⟨others, written⟩ := owns.target
  unfold targetPieces at written
  dsimp only at written
  cases target : field.target with
  | env name joined =>
    simp only [target] at written
    cases written
  | arg flag =>
    simp only [target] at written
    cases written
  | json path pointer =>
    simp only [target] at written orderly
    cases written
    exact ⟨orderly, by rintro ⟨⟩⟩
  | properties path key prefix_ java json =>
    simp only [target] at written orderly
    cases written
    exact ⟨orderly.1, by rintro ⟨⟩⟩
  | ini path section_ key =>
    simp only [target] at written orderly
    cases written
    exact ⟨orderly.1, by rintro ⟨⟩⟩
  | lua path table key also =>
    simp only [target] at written orderly
    obtain ⟨extras, -, rest⟩ := ok_of_bind written
    cases rest
    exact ⟨orderly.1, by rintro ⟨⟩⟩
  | luaBase path table prefix_ =>
    simp only [target] at written orderly
    cases written
    exact ⟨orderly.1, by rintro ⟨⟩⟩
  | cvar path name =>
    simp only [target] at written orderly
    obtain ⟨quoted, -, rest⟩ := ok_of_bind written
    cases rest
    exact ⟨orderly.1, by rintro ⟨⟩⟩

theorem feed_of_javaProperty {text : List Char} (member : '\n' ∈ text) :
    '\n' ∈ javaProperty text := by
  have escaped : '\n' ∈ text.flatMap fun char => if char = '\\' then ['\\', '\\'] else [char] :=
    mem_flatMap.mpr ⟨'\n', member, by decide⟩
  unfold javaProperty
  split
  · rename_i rest same
    rw [same] at escaped
    exact mem_cons_of_mem _ escaped
  · rename_i rest same
    rw [same] at escaped
    have later := (mem_cons.mp escaped).resolve_left (by decide)
    exact mem_cons_of_mem _ (mem_cons_of_mem _ later)
  · exact escaped

theorem feed_of_propertyText {prefix_ : Option (List Char)} {java : Bool} {text : List Char}
    (member : '\n' ∈ text) : '\n' ∈ propertyText prefix_ java false text := by
  have whole : '\n' ∈ prefix_.getD [] ++ text := mem_append_right _ member
  unfold propertyText
  dsimp only
  split
  · exact feed_of_javaProperty whole
  · exact whole

/-- A setting whose own texts can be taken back breaks no line. -/
theorem unbroken_of_legible
    (legible : ∀ file format own, OwnEntry language game values options field file format own →
      own.Legible format) (taken : leftAlone options field = false)
    (shown : settingShown game field ((defaultsFor game).merge values) = true) :
    field.target.Unbroken (asText language (valueIn values field)) := by
  by_cases empty : asText language (valueIn values field) = []
  · rw [empty]
    cases field.target with
    | properties path key prefix_ java json => exact fun _ => not_mem_nil
    | ini path section_ key => exact not_mem_nil
    | luaBase path table prefix_ => exact not_mem_nil
    | _ => trivial
  · have pieces : fieldPieces language game values options field =
        targetPieces language game field (valueIn values field) := by
      unfold fieldPieces
      simp [taken, shown, empty]
    unfold targetPieces at pieces
    cases target : field.target with
    | properties path key prefix_ java json =>
      simp only [target] at pieces
      have taken_ : Legible (propertyText prefix_ java json (asText language (valueIn values field))) :=
        legible _ _ _ ⟨rfl, _, pieces⟩
      rintro rfl member
      exact clean_of_plain taken_.plain (feed_of_propertyText member)
    | ini path section_ key =>
      simp only [target] at pieces
      have taken_ : Legible (asText language (valueIn values field)) :=
        legible _ _ _ ⟨rfl, _, pieces⟩
      exact clean_of_plain taken_.plain
    | luaBase path table prefix_ =>
      simp only [target] at pieces
      have taken_ := (legible _ _ _ ⟨rfl, _, pieces⟩).1 rfl
      exact fun member => taken_.2 (mem_append_right _ member)
    | _ => trivial

end Own

/-! ### Each key its own setting's text -/

/-- The entry that decides the key of a setting's own entry writes the same text. -/
def Prevails (language : Language) (format : Format) (entries : List Entry) (own : Entry) : Prop :=
  (deciding language format entries own).bind (Entry.left format) = some own.value

/-- What a render is asked to write can be told apart in the files it goes to: what it writes can
be held where the definition names it and no file gets two formats or a list of mods as its whole;
what others than the settings write can be taken back; and the files are read one way. -/
structure Clear (language : Language) (game : GameDefinition) (values : ConfigValues)
    (options : RenderOptions) (formatOf : String → Format) (before : String → List Char) :
    Prop where
  spells : language.Spells
  figures : language.Figures
  orderly : Orderly language game values options formatOf
  wholes : ∀ list ∈ modLists game options, ∀ kind file,
    list.1 = some (.whole kind file) → formatOf file = .whole
  others : ∀ file, ∀ entry ∈ writtenTo language game values options file,
    (∃ field ∈ game.config, ∃ format,
      OwnEntry language game values options field file format entry) ∨
      entry.Legible (formatOf file)
  settled : ∀ file, writtenTo language game values options file ≠ [] → Settled (before file)
  starts : ∀ file, formatOf file = .lua →
    ∀ entry ∈ writtenTo language game values options file, entry.key = [] →
      Outside entry.section_ (before file) ∧ Started entry.section_ (before file)
  shapes : ∀ file, formatOf file = .lua →
    ∀ entry ∈ writtenTo language game values options file, entry.key ≠ [] →
      OneShape entry.section_ entry.key (before file)

section Together

variable {language : Language} {game : GameDefinition} {formatOf : String → Format}
  {values : ConfigValues} {options : RenderOptions} {before : String → List Char}

theorem Clear.legible (clear : Clear language game values options formatOf before)
    (taken : ∀ field ∈ game.config, ∀ file format own,
      OwnEntry language game values options field file format own → own.Legible format) :
    ∀ file, ∀ entry ∈ writtenTo language game values options file,
      entry.Legible (formatOf file) := by
  intro file entry member
  rcases clear.others file entry member with ⟨field, inside, format, owns⟩ | legible
  · rw [(owns.formatted (clear.orderly.targets field inside owns.isWritten)).1]
    exact taken field inside file format entry owns
  · exact legible

theorem Clear.fits (clear : Clear language game values options formatOf before)
    (taken : ∀ field ∈ game.config, ∀ file format own,
      OwnEntry language game values options field file format own → own.Legible format) :
    ∀ piece ∈ written language game values options, PieceOf formatOf piece := by
  refine written_of clear.spells clear.orderly (fun field inside =>
    unbroken_of_legible (taken field inside)) fun list inside file key separator is format _ => ?_
  have member : ⟨[], key, separator.intercalate list.2, false⟩ ∈
      writtenTo language game values options file := by
    refine mem_filterMap.mpr ⟨.entry file .properties _, mem_append_right _
      (mem_filterMap.mpr ⟨list, inside, ?_⟩), if_pos rfl⟩
    unfold modPiece
    rw [is]
  have legible := clear.legible taken file _ member
  rw [format] at legible
  exact clean_of_plain legible.plain

/-- What a setting's own key holds in the end, when every setting's text can be taken back. -/
theorem Clear.holds (clear : Clear language game values options formatOf before)
    (taken : ∀ field ∈ game.config, ∀ file format own,
      OwnEntry language game values options field file format own → own.Legible format)
    {version : Option GameVersion} {rendered : RenderedConfig}
    (made : renderConfig language game values version options = .ok rendered)
    {after : String → List Char} (applied : ∀ file patch, rendered.files.get file = some patch →
      applyPatch language patch (before file) = .ok (after file))
    {field : ConfigField} (inside : field ∈ game.config) {file : String} {format : Format}
    {own : Entry} (owns : OwnEntry language game values options field file format own) :
    format.raw language (after file) own.section_ own.key =
      (deciding language format (writtenTo language game values options file) own).bind
        (Entry.left format) := by
  have fits := clear.fits taken
  obtain ⟨formatted, mergeable⟩ :=
    owns.formatted (clear.orderly.targets field inside owns.isWritten)
  have member := owns.writtenTo inside
  have patch : rendered.files.get file =
      some ⟨file, formatOf file, writtenTo language game values options file⟩ := by
    rw [renderConfig_files made fits fun list there kind path is => ?_,
      patchOf_some (ne_nil_of_mem member)]
    rintro rfl
    exact mergeable (formatted.symm.trans (clear.wholes list there kind path is))
  rw [← formatted]
  refine @applyPatch_named language own
    ⟨file, formatOf file, writtenTo language game values options file⟩ (before file) (after file)
    (fun entry there => ?_) (clear.legible taken file) (clear.settled file (ne_nil_of_mem member))
    (fun isLua entry there keyless => clear.starts file isLua entry there keyless)
    (fun isLua keyed => clear.shapes file isLua own member keyed) (applied file _ patch) member
  obtain ⟨piece, whole, into⟩ := mem_filterMap.mp there
  obtain ⟨format, rfl⟩ := into_some into
  exact (fits _ whole).2

/-- Each key holds its own setting's text in the end exactly when every setting's text is one
that its format's reader takes back and what decides its key writes the same. -/
theorem fields_keep_their_texts_iff (language : Language) (game : GameDefinition)
    (values : ConfigValues) (version : Option GameVersion) (options : RenderOptions)
    (formatOf : String → Format) (before after : String → List Char)
    (clear : Clear language game values options formatOf before) (rendered : RenderedConfig)
    (made : renderConfig language game values version options = .ok rendered)
    (applied : ∀ file patch, rendered.files.get file = some patch →
      applyPatch language patch (before file) = .ok (after file)) :
    (∀ field ∈ game.config, ∀ file format own,
      OwnEntry language game values options field file format own →
        format.raw language (after file) own.section_ own.key = some own.value) ↔
    ∀ field ∈ game.config, ∀ file format own,
      OwnEntry language game values options field file format own →
        own.Legible format ∧
          Prevails language format (writtenTo language game values options file) own := by
  constructor
  · intro held
    have taken : ∀ field ∈ game.config, ∀ file format own,
        OwnEntry language game values options field file format own → own.Legible format :=
      fun field inside file format own owns =>
        owns.legible (clear.orderly.targets field inside owns.isWritten) clear.spells clear.figures
          (held field inside file format own owns)
    intro field inside file format own owns
    refine ⟨taken field inside file format own owns, ?_⟩
    exact (clear.holds taken made applied inside owns).symm.trans
      (held field inside file format own owns)
  · intro prevail field inside file format own owns
    refine (clear.holds (fun field inside file format own owns =>
      (prevail field inside file format own owns).1) made applied inside owns).trans ?_
    exact (prevail field inside file format own owns).2

end Together

/-! ### One setting, and two of one key -/

theorem ascii_figures : ascii.Figures := by
  intro value char member
  change char ∈ inBase 10 value.num at member
  unfold inBase at member
  split at member
  · rcases mem_cons.mp member with rfl | digit
    · exact Or.inr (Or.inr (Or.inl rfl))
    · exact figures_of_digits (isDigit_of_mem_toDigits _) char digit
  · exact figures_of_digits (isDigit_of_mem_toDigits _) char member

def greeting : ConfigValues := noted "hello".toList

theorem written_greeting : written ascii noteGame greeting { includeEmpty := true } =
    [.entry "server.properties" .properties ⟨[], "motd".toList, "hello".toList, false⟩] := by
  rfl

theorem writtenTo_greeting {file : String} {entry : Entry}
    (member : entry ∈ writtenTo ascii noteGame greeting { includeEmpty := true } file) :
    file = "server.properties" ∧ entry = ⟨[], "motd".toList, "hello".toList, false⟩ := by
  obtain ⟨piece, inside, into⟩ := mem_filterMap.mp member
  rw [written_greeting, mem_singleton] at inside
  subst inside
  obtain ⟨same, made⟩ := ite_none_right_eq_some.mp into
  exact ⟨same.symm, (some.inj made).symm⟩

theorem legible_hello : Legible "hello".toList := ⟨by decide +kernel, by decide +kernel⟩

theorem clear_greeting : Clear ascii noteGame greeting { includeEmpty := true }
    (fun _ => .properties) fun _ => "level=world\n".toList := by
  refine ⟨ascii_spells, ascii_figures, noteGame_orderly, ?_, ?_, ?_, ?_, ?_⟩
  · intro list member
    cases member
  · intro file entry member
    rw [(writtenTo_greeting member).2]
    exact Or.inr legible_hello
  · intro file _
    unfold Settled
    decide +kernel
  · rintro file ⟨⟩
  · rintro file ⟨⟩

/-- A message of one line is rendered, and is what its key holds. -/
theorem fields_keep_their_texts_iff_greeting :
    renderConfig ascii noteGame greeting none { includeEmpty := true } =
        .ok (noteRendered "hello".toList) ∧
      ∀ field ∈ noteGame.config, ∀ file format own,
        OwnEntry ascii noteGame greeting { includeEmpty := true } field file format own →
          format.raw ascii "level=world\n\nmotd=hello\n".toList own.section_ own.key =
            some own.value := by
  have made : renderConfig ascii noteGame greeting none { includeEmpty := true } =
      .ok (noteRendered "hello".toList) := by
    rfl
  have applied : ∀ file patch, (noteRendered "hello".toList).files.get file = some patch →
      applyPatch ascii patch "level=world\n".toList =
        .ok "level=world\n\nmotd=hello\n".toList := by
    intro file patch has
    have same := Record.mem_of_get has
    obtain ⟨-, rfl⟩ := Prod.mk.inj (mem_singleton.mp same)
    rfl
  refine ⟨made, (fields_keep_their_texts_iff ascii noteGame greeting none { includeEmpty := true }
    (fun _ => .properties) (fun _ => "level=world\n".toList)
    (fun _ => "level=world\n\nmotd=hello\n".toList) clear_greeting
    (noteRendered "hello".toList) made applied).mpr ?_⟩
  intro field member file format own owns
  obtain ⟨rfl, rfl⟩ := writtenTo_greeting (owns.writtenTo member)
  obtain ⟨formatted, -⟩ :=
    owns.formatted (clear_greeting.orderly.targets field member owns.isWritten)
  rw [← formatted]
  exact ⟨legible_hello, by unfold Prevails; rfl⟩

/-- A game with a message and a motto, both under one key. -/
def mottoGame : GameDefinition where
  id := "game"
  name := "Game"
  versions := [{ id := "1", image := "game:1" }]
  config := [
    { key := "motd", label := "Message", type := .string, default := .string []
      target := .properties "server.properties" "motd".toList none false false },
    { key := "motto", label := "Motto", type := .string, default := .string []
      target := .properties "server.properties" "motd".toList none false false }]

def mottoed : ConfigValues := .ofEntries [("motd", .string ['a']), ("motto", .string ['b'])]

/-- The motto undoes the message. -/
theorem motto_undoes_message :
    auditDefinition ascii mottoGame = [] ∧ validateConfig ascii (fun _ _ => true) mottoGame mottoed = [] ∧
      ∃ rendered patch content,
        renderConfig ascii mottoGame mottoed none {} = .ok rendered ∧
        rendered.files.get "server.properties" = some patch ∧
        applyPatch ascii patch "level=world\n".toList = .ok content ∧
        ∃ field ∈ mottoGame.config, ∃ own,
          OwnEntry ascii mottoGame mottoed {} field "server.properties" .properties own ∧
          own.value = ['a'] ∧
          Format.properties.raw ascii content own.section_ own.key = some ['b'] := by
  refine ⟨by decide +kernel, by decide +kernel,
    ⟨.empty, .ofEntries [("server.properties", ⟨"server.properties", .properties,
      [⟨[], "motd".toList, ['a'], false⟩, ⟨[], "motd".toList, ['b'], false⟩]⟩)], []⟩,
    ⟨"server.properties", .properties,
      [⟨[], "motd".toList, ['a'], false⟩, ⟨[], "motd".toList, ['b'], false⟩]⟩,
    "level=world\n\nmotd=b\n".toList, by rfl, by rfl, by rfl, ?_⟩
  refine ⟨_, mem_cons_self, ⟨[], "motd".toList, ['a'], false⟩, ⟨rfl, [], by rfl⟩, rfl, ?_⟩
  decide +kernel

end Geeboard.Games
