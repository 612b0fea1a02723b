/-
This file is about what a change of settings would cost, against what a render
of the settings then does.

A plan says that the workload has to be rebuilt when a changed setting is a
variable or an argument. The render also asks whether a setting is shown, which
other settings decide, and falls back to the default of one that is not there.
So a workload that a plan leaves alone keeps its variables and its arguments
when none of them comes or goes and none is let go of.
-/

import Geeboard.Games.Render
import Geeboard.Systems.Results

namespace Geeboard.Games

open List Option
open Text (Record)
open Systems

/-! ### The variables and the arguments of a render -/

/-- A piece of a variable: its name, whether it is a part of it, and its text. -/
structure VariablePart where
  name : String
  joined : Bool
  text : List Char

def Piece.variable_ : Piece → Option VariablePart
  | .env name joined text => some ⟨name, joined, text⟩
  | _ => none

def Piece.argument : Piece → Option (List Char × List Char)
  | .arg flag text => some (flag, text)
  | _ => none

/-- The variables with one more part. -/
def putVariable (env : Record String (List Char)) (part : VariablePart) :
    Record String (List Char) :=
  env.set part.name
    (if part.joined then joinParts [(env.get part.name).getD [], part.text] else part.text)

theorem env_foldl_put (pieces : List Piece) (rendered : RenderedConfig) :
    (pieces.foldl RenderedConfig.put rendered).env =
      (pieces.filterMap Piece.variable_).foldl putVariable rendered.env := by
  induction pieces generalizing rendered with
  | nil => rfl
  | cons piece pieces inductionHypothesis =>
    rw [foldl_cons, inductionHypothesis]
    cases piece with
    | env name joined text => rfl
    | arg flag text => rfl
    | entry file format entry => rfl

theorem args_foldl_put (pieces : List Piece) (rendered : RenderedConfig) :
    (pieces.foldl RenderedConfig.put rendered).args =
      rendered.args ++ (pieces.filterMap Piece.argument).flatMap fun part => [part.1, part.2] := by
  induction pieces generalizing rendered with
  | nil => exact (append_nil _).symm
  | cons piece pieces inductionHypothesis =>
    rw [foldl_cons, inductionHypothesis]
    cases piece with
    | env name joined text => rfl
    | arg flag text => exact append_assoc _ _ _
    | entry file format entry => rfl

theorem putMods_frame {rendered later : RenderedConfig}
    {list : Option ModTarget × List (List Char)} (put : putMods rendered list = .ok later) :
    later.env = rendered.env ∧ later.args = rendered.args := by
  unfold putMods at put
  split at put
  · cases put
    exact ⟨rfl, rfl⟩
  · cases put
    exact ⟨rfl, rfl⟩
  · obtain ⟨content, -, rest⟩ := ok_of_bind put
    cases rest
    exact ⟨rfl, rfl⟩

theorem renderMods_frame {game : GameDefinition} {options : RenderOptions}
    {rendered later : RenderedConfig} (put : renderMods game options rendered = .ok later) :
    later.env = rendered.env ∧ later.args = rendered.args := by
  unfold renderMods at put
  split at put
  · refine kept_of_foldlM
      (fun between => between.env = rendered.env ∧ between.args = rendered.args)
      (fun between list _ next before put => ?_) ⟨rfl, rfl⟩ put
    have same := putMods_frame put
    exact ⟨same.1.trans before.1, same.2.trans before.2⟩
  · cases put
    exact ⟨rfl, rfl⟩

/-! ### What one setting writes -/

section Written

variable (language : Language) (game : GameDefinition) (values : ConfigValues)
  (options : RenderOptions)

/-- Whether a setting that is a variable or an argument is written. -/
def Written (field : ConfigField) : Bool :=
  !leftAlone options field && settingShown game field ((defaultsFor game).merge values) &&
    !((asText language (valueIn values field)).isEmpty &&
      (!options.includeEmpty || field.target.isJoined))

/-- The text it is written with. -/
def writtenText (field : ConfigField) : Option (List Char) :=
  if Written language game values options field then some (asText language (valueIn values field))
  else none

/-- The part of a variable a setting writes. -/
def variablePart (field : ConfigField) : Option VariablePart :=
  match field.target with
  | .env name joined =>
    (writtenText language game values options field).map fun text => ⟨name, joined, text⟩
  | _ => none

/-- The argument a setting writes. -/
def argumentPart (field : ConfigField) : Option (List Char × List Char) :=
  match field.target with
  | .arg flag => (writtenText language game values options field).map fun text => (flag, text)
  | _ => none

variable {language game values options}

/-- A piece that is an entry of a file. -/
def Piece.isEntry : Piece → Bool
  | .entry _ _ _ => true
  | _ => false

theorem filterMap_entries {pieces : List Piece} (entries : ∀ piece ∈ pieces, piece.isEntry = true) :
    pieces.filterMap Piece.variable_ = [] ∧ pieces.filterMap Piece.argument = [] := by
  constructor
  · refine filterMap_eq_nil_iff.mpr fun piece member => ?_
    have entry := entries piece member
    cases piece with
    | entry file format entry => rfl
    | _ => cases entry
  · refine filterMap_eq_nil_iff.mpr fun piece member => ?_
    have entry := entries piece member
    cases piece with
    | entry file format entry => rfl
    | _ => cases entry

theorem unset_entries (target : ConfigTarget) : ∀ piece ∈ unset target, piece.isEntry = true := by
  cases target with
  | cvar file name => exact fun piece member => (mem_singleton.mp member) ▸ rfl
  | _ => exact fun piece member => absurd member not_mem_nil

theorem companionPiece_entry {field : ConfigField} {file : String} {table text : List Char}
    {extra : Companion} {piece : Piece}
    (written : companionPiece game field file table text extra = .ok piece) :
    piece.isEntry = true := by
  unfold companionPiece at written
  dsimp only at written
  split at written
  · cases written
    rfl
  · cases written

/-- What a setting that lives in a file writes are entries. -/
theorem targetPieces_entries {field : ConfigField} {value : ConfigValue} {pieces : List Piece}
    (inFile : field.target.needsRecreate = false)
    (written : targetPieces language game field value = .ok pieces) :
    ∀ piece ∈ pieces, piece.isEntry = true := by
  unfold targetPieces at written
  cases target : field.target with
  | env name joined =>
    rw [target] at inFile
    cases inFile
  | arg flag =>
    rw [target] at inFile
    cases inFile
  | lua file table key also =>
    simp only [target] at written
    obtain ⟨extras, others, rest⟩ := ok_of_bind written
    cases rest
    exact forall_mem_cons.mpr
      ⟨rfl, forall_of_mapM (fun _ _ _ => companionPiece_entry) others⟩
  | cvar file name =>
    simp only [target] at written
    obtain ⟨quoted, -, rest⟩ := ok_of_bind written
    cases rest
    exact fun piece member => (mem_singleton.mp member) ▸ rfl
  | _ =>
    simp only [target] at written
    cases written
    exact fun piece member => (mem_singleton.mp member) ▸ rfl

/-- The variables and arguments among what a setting writes. -/
theorem fieldPieces_parts {field : ConfigField} {pieces : List Piece}
    (written : fieldPieces language game values options field = .ok pieces) :
    pieces.filterMap Piece.variable_ = (variablePart language game values options field).toList ∧
      pieces.filterMap Piece.argument =
        (argumentPart language game values options field).toList := by
  cases inFile : field.target.needsRecreate with
  | false =>
    have entries : ∀ piece ∈ pieces, piece.isEntry = true := by
      unfold fieldPieces at written
      dsimp only at written
      split at written
      · cases written
        exact fun piece member => absurd member not_mem_nil
      · split at written
        · cases written
          exact unset_entries _
        · split at written
          · split at written
            · cases written
              exact unset_entries _
            · cases written
              exact fun piece member => absurd member not_mem_nil
          · split at written
            · cases written
              exact fun piece member => absurd member not_mem_nil
            · exact targetPieces_entries inFile written
    rw [(filterMap_entries entries).1, (filterMap_entries entries).2]
    unfold variablePart argumentPart
    cases target : field.target with
    | env name joined =>
      rw [target] at inFile
      cases inFile
    | arg flag =>
      rw [target] at inFile
      cases inFile
    | _ => exact ⟨rfl, rfl⟩
  | true =>
    have notCvar : field.target.isCvar = false := by
      cases target : field.target with
      | cvar file name =>
        rw [target] at inFile
        cases inFile
      | _ => rfl
    have unsetNothing : unset field.target = [] := by
      cases target : field.target with
      | cvar file name =>
        rw [target] at inFile
        cases inFile
      | _ => rfl
    unfold fieldPieces at written
    simp only [notCvar, unsetNothing, Bool.and_false, Bool.false_eq_true, if_false] at written
    have nothing : writtenText language game values options field = none → pieces = [] →
        pieces.filterMap Piece.variable_ =
            (variablePart language game values options field).toList ∧
          pieces.filterMap Piece.argument =
            (argumentPart language game values options field).toList := by
      rintro none_ rfl
      unfold variablePart argumentPart
      rw [none_]
      cases field.target with
      | _ => exact ⟨rfl, rfl⟩
    unfold writtenText Written at nothing
    split at written
    · rename_i alone
      exact nothing (by rw [alone]; rfl) (Except.ok.inj written).symm
    rename_i notAlone
    split at written
    · rename_i hidden
      refine nothing (if_neg fun all => ?_) (Except.ok.inj written).symm
      rw [Bool.not_eq_true'] at hidden
      rw [hidden, Bool.and_false] at all
      cases all
    rename_i shown
    split at written
    · rename_i empty
      refine nothing (if_neg fun all => ?_) (Except.ok.inj written).symm
      rw [empty, Bool.not_true, Bool.and_false] at all
      cases all
    rename_i something
    have is_ : writtenText language game values options field =
        some (asText language (valueIn values field)) := by
      unfold writtenText Written
      rw [Bool.not_eq_true] at notAlone something
      rw [notAlone, something, Bool.not_false, Bool.and_true, Bool.true_and,
        if_pos (by simpa using shown)]
    unfold variablePart argumentPart
    rw [is_]
    unfold targetPieces at written
    cases target : field.target with
    | env name joined =>
      simp only [target] at written
      cases written
      exact ⟨rfl, rfl⟩
    | arg flag =>
      simp only [target] at written
      cases written
      exact ⟨rfl, rfl⟩
    | _ =>
      rw [target] at inFile
      cases inFile

/-- The variables of a render are those of its beginning with the parts of the settings put to
them, one after another. -/
theorem renderConfig_env {version : Option GameVersion} {rendered : RenderedConfig}
    (result : renderConfig language game values version options = .ok rendered) :
    rendered.env = (game.config.filterMap (variablePart language game values options)).foldl
      putVariable (beginning game version options).env := by
  obtain ⟨pieces, walked, rest⟩ := ok_of_bind result
  rw [(renderMods_frame rest).1, env_foldl_put,
    filterMap_flatten_of_mapM (fun _ _ written => (fieldPieces_parts written).1) walked]

theorem renderConfig_args {version : Option GameVersion} {rendered : RenderedConfig}
    (result : renderConfig language game values version options = .ok rendered) :
    rendered.args = (beginning game version options).args ++
      (game.config.filterMap (argumentPart language game values options)).flatMap
        fun part => [part.1, part.2] := by
  obtain ⟨pieces, walked, rest⟩ := ok_of_bind result
  rw [(renderMods_frame rest).2, args_foldl_put,
    filterMap_flatten_of_mapM (fun _ _ written => (fieldPieces_parts written).2) walked]

end Written

/-! ### What a plan says -/

section Plan

variable (language : Language) (game : GameDefinition) (version : Option GameVersion)
  (options : RenderOptions) (before after : ConfigValues)

/-- A variable or argument is written for both or for neither; and one that the later values do
not have is written with its default's text for the earlier ones too. -/
structure Steady (field : ConfigField) : Prop where
  written : Written language game before options field = Written language game after options field
  held : Written language game before options field = true → after.has field.key = false →
    asText language (valueIn before field) = asText language field.default

/-- The variables and the arguments are the same. -/
def SameLaunch (first second : RenderedConfig) : Prop :=
  (∀ name, first.env.get name = second.env.get name) ∧ first.args = second.args

def ConfigTarget.variable_ : ConfigTarget → Option String
  | .env name _ => some name
  | _ => none

def ConfigTarget.flag : ConfigTarget → Option (List Char)
  | .arg flag => some flag
  | _ => none

/-- Each variable and each flag is written by one setting only. -/
structure Apart : Prop where
  names : (game.config.filterMap fun field => field.target.variable_).Nodup
  fresh_ : ∀ field ∈ game.config, ∀ name, field.target.variable_ = some name →
    (beginning game version options).env.get name = none
  flags : (game.config.filterMap fun field => field.target.flag).Nodup

variable {language game version options before after}

/-- When a plan needs no rebuild, a variable or an argument that is sent is what it was. -/
theorem valueIn_of_plan (plan : (planConfigChange game before after []).needsRecreate = false)
    {field : ConfigField} (member : field ∈ game.config)
    (launch : field.target.needsRecreate = true) (sent : after.has field.key = true) :
    valueIn before field = valueIn after field := by
  obtain ⟨value, same⟩ := isSome_iff_exists.mp sent
  unfold planConfigChange at plan
  dsimp only at plan
  rw [List.any_eq_false] at plan
  unfold valueIn
  rw [same, getD_some]
  by_contra changed
  have inPlan := plan
    ⟨field.key, field.label, (before.get field.key).getD field.default, value, .onRecreate⟩
    (mem_filterMap.mpr ⟨field, member, ?_⟩)
  · exact inPlan (beq_self_eq_true Applies.onRecreate)
  · simp only [same, if_neg changed, launch, Bool.true_or, if_true]

/-- A setting writes the same text for both just when it is steady. -/
theorem steady_iff (plan : (planConfigChange game before after []).needsRecreate = false)
    {field : ConfigField} (member : field ∈ game.config)
    (launch : field.target.needsRecreate = true) :
    Steady language game options before after field ↔
      writtenText language game before options field =
        writtenText language game after options field := by
  have texts : after.has field.key = true →
      asText language (valueIn before field) = asText language (valueIn after field) :=
    fun sent => congrArg _ (valueIn_of_plan plan member launch sent)
  have default_ : after.has field.key = false → valueIn after field = field.default := by
    intro absent
    unfold valueIn
    rw [isSome_eq_false_iff.mp absent |> isNone_iff_eq_none.mp]
    rfl
  unfold writtenText
  constructor
  · intro steady
    rw [← steady.written]
    split
    · rename_i written
      cases sent : after.has field.key with
      | true => rw [texts sent]
      | false => rw [steady.held written sent, default_ sent]
    · rfl
  · intro same
    have written : Written language game before options field =
        Written language game after options field := by
      cases first : Written language game before options field with
      | true =>
        cases second : Written language game after options field with
        | true => rfl
        | false =>
          rw [first, second] at same
          cases same
      | false =>
        cases second : Written language game after options field with
        | true =>
          rw [first, second] at same
          cases same
        | false => rfl
    refine ⟨written, fun isWritten absent => ?_⟩
    rw [← written, isWritten, if_pos rfl, if_pos rfl, default_ absent] at same
    exact some.inj same

/-- What the settings that are variables and arguments write is the same when each is steady. -/
theorem sameLaunch_of_steady (plan : (planConfigChange game before after []).needsRecreate = false)
    (steady : ∀ field ∈ game.config, field.target.needsRecreate = true →
      Steady language game options before after field)
    {first second : RenderedConfig}
    (earlier : renderConfig language game before version options = .ok first)
    (later : renderConfig language game after version options = .ok second) :
    SameLaunch first second := by
  have texts : ∀ field ∈ game.config, field.target.needsRecreate = true →
      writtenText language game before options field =
        writtenText language game after options field :=
    fun field member launch => (steady_iff plan member launch).mp (steady field member launch)
  have variables_ : game.config.filterMap (variablePart language game before options) =
      game.config.filterMap (variablePart language game after options) := by
    refine filterMap_congr fun field member => ?_
    unfold variablePart
    cases target : field.target with
    | env name joined => rw [texts field member (by rw [target]; rfl)]
    | _ => rfl
  have arguments : game.config.filterMap (argumentPart language game before options) =
      game.config.filterMap (argumentPart language game after options) := by
    refine filterMap_congr fun field member => ?_
    unfold argumentPart
    cases target : field.target with
    | arg flag => rw [texts field member (by rw [target]; rfl)]
    | _ => rfl
  refine ⟨fun name => ?_, ?_⟩
  · rw [renderConfig_env earlier, renderConfig_env later, variables_]
  · rw [renderConfig_args earlier, renderConfig_args later, arguments]

/-! ### The other way, where no two settings meet -/

theorem joinParts_empty (text : List Char) : joinParts [[], text] = text := by
  cases text with
  | nil => rfl
  | cons char text => exact append_nil _

/-- A variable that one part is written to has that part's text. -/
theorem get_foldl_putVariable {parts : List VariablePart} {env : Record String (List Char)}
    (distinct : (parts.map VariablePart.name).Nodup)
    (fresh_ : ∀ part ∈ parts, env.get part.name = none) (name : String) :
    (parts.foldl putVariable env).get name =
      ((parts.find? fun part => part.name == name).map VariablePart.text).or (env.get name) := by
  induction parts generalizing env with
  | nil => rfl
  | cons part parts inductionHypothesis =>
    obtain ⟨new, rest⟩ := nodup_cons.mp distinct
    have put : putVariable env part = env.set part.name part.text := by
      unfold putVariable
      rw [fresh_ part mem_cons_self, getD_none, joinParts_empty, ite_self]
    have others : ∀ other ∈ parts, (env.set part.name part.text).get other.name = none := by
      intro other there
      have different : part.name ≠ other.name := by
        intro same
        exact new (same ▸ List.mem_map_of_mem there)
      rw [Record.get_set_of_ne _ _ different]
      exact fresh_ other (mem_cons_of_mem _ there)
    rw [foldl_cons, put, inductionHypothesis rest others, find?_cons, Record.get_set]
    by_cases here : part.name = name
    · have none_ : (parts.find? fun other => other.name == name) = none := by
        refine find?_eq_none.mpr fun other there same => new ?_
        rw [here, ← beq_iff_eq.mp same]
        exact List.mem_map_of_mem there
      rw [none_, if_pos here, beq_iff_eq.mpr here]
      rfl
    · rw [if_neg here, beq_eq_false_iff_ne.mpr here]

theorem flatMap_pair_injective {Item : Type} {first second : List (Item × Item)}
    (same : (first.flatMap fun pair => [pair.1, pair.2]) =
      second.flatMap fun pair => [pair.1, pair.2]) : first = second := by
  induction first generalizing second with
  | nil =>
    cases second with
    | nil => rfl
    | cons pair second => cases same
  | cons pair first inductionHypothesis =>
    cases second with
    | nil => cases same
    | cons other second =>
      obtain ⟨one, rest⟩ := cons.inj same
      obtain ⟨two, rest⟩ := cons.inj rest
      rw [inductionHypothesis rest, Prod.ext one two]

theorem variablePart_name {values : ConfigValues} (field : ConfigField) (part : VariablePart)
    (written : variablePart language game values options field = some part) :
    field.target.variable_ = some part.name := by
  unfold variablePart at written
  cases target : field.target with
  | env name joined =>
    rw [target] at written
    obtain ⟨text, -, rfl⟩ := map_eq_some_iff.mp written
    rfl
  | _ =>
    rw [target] at written
    cases written

theorem argumentPart_flag {values : ConfigValues} (field : ConfigField)
    (part : List Char × List Char)
    (written : argumentPart language game values options field = some part) :
    field.target.flag = some part.1 := by
  unfold argumentPart at written
  cases target : field.target with
  | arg flag =>
    rw [target] at written
    obtain ⟨text, -, rfl⟩ := map_eq_some_iff.mp written
    rfl
  | _ =>
    rw [target] at written
    cases written

/-- Where no two settings meet, a setting's variable has the text it is written with. -/
theorem get_env_of_apart (apart : Apart game version options) {values : ConfigValues}
    {rendered : RenderedConfig}
    (result : renderConfig language game values version options = .ok rendered)
    {field : ConfigField} (member : field ∈ game.config) {name : String}
    (named : field.target.variable_ = some name) :
    rendered.env.get name = writtenText language game values options field := by
  rw [renderConfig_env result, get_foldl_putVariable
    (apart.names.sublist (Text.filterMap_sublist variablePart_name _)),
    Text.find_filterMap variablePart_name apart.names member named,
    apart.fresh_ field member name named, or_none]
  · unfold variablePart
    cases target : field.target with
    | env other joined =>
      dsimp only
      rw [Option.map_map]
      exact Option.map_id'
    | _ =>
      rw [target] at named
      cases named
  · intro part there
    obtain ⟨other, otherMember, written⟩ := mem_filterMap.mp there
    exact apart.fresh_ other otherMember _ (variablePart_name other part written)

/-- Where no two settings meet, the arguments tell what each of them is written with. -/
theorem argumentPart_of_args (apart : Apart game version options) {first second : RenderedConfig}
    (earlier : renderConfig language game before version options = .ok first)
    (later : renderConfig language game after version options = .ok second)
    (same : first.args = second.args) {field : ConfigField} (member : field ∈ game.config)
    {flag : List Char} (named : field.target.flag = some flag) :
    argumentPart language game before options field =
      argumentPart language game after options field := by
  rw [renderConfig_args earlier, renderConfig_args later] at same
  have parts := flatMap_pair_injective (append_cancel_left same)
  rw [← Text.find_filterMap argumentPart_flag apart.flags member named, parts]
  exact Text.find_filterMap argumentPart_flag apart.flags member named

/-- Where no two settings meet, the same variables and arguments come of steady settings only. -/
theorem steady_of_sameLaunch
    (plan : (planConfigChange game before after []).needsRecreate = false)
    (apart : Apart game version options) {first second : RenderedConfig}
    (earlier : renderConfig language game before version options = .ok first)
    (later : renderConfig language game after version options = .ok second)
    (same : SameLaunch first second) {field : ConfigField} (member : field ∈ game.config)
    (launch : field.target.needsRecreate = true) :
    Steady language game options before after field := by
  refine (steady_iff plan member launch).mpr ?_
  cases target : field.target with
  | env name joined =>
    have named : field.target.variable_ = some name := by rw [target]; rfl
    rw [← get_env_of_apart apart earlier member named, same.1,
      get_env_of_apart apart later member named]
  | arg flag =>
    have named : field.target.flag = some flag := by rw [target]; rfl
    have parts := argumentPart_of_args apart earlier later same.2 member named
    unfold argumentPart at parts
    rw [target] at parts
    exact map_injective (fun _ _ same => (Prod.mk.inj same).2) parts
  | _ =>
    rw [target] at launch
    cases launch

end Plan

/-- When a plan says that no rebuild is needed, the variables and the arguments stay the same if
every setting that is one is written for both values or for neither and is not let go of; and
where no two settings meet in a variable or a flag, only then. -/
theorem no_rebuild_needed (language : Language) (game : GameDefinition)
    (version : Option GameVersion) (options : RenderOptions) (before after : ConfigValues)
    (first second : RenderedConfig)
    (plan : (planConfigChange game before after []).needsRecreate = false)
    (earlier : renderConfig language game before version options = .ok first)
    (later : renderConfig language game after version options = .ok second) :
    ((∀ field ∈ game.config, field.target.needsRecreate = true →
        Steady language game options before after field) → SameLaunch first second) ∧
      (Apart game version options → SameLaunch first second →
        ∀ field ∈ game.config, field.target.needsRecreate = true →
          Steady language game options before after field) :=
  ⟨fun steady => sameLaunch_of_steady plan steady earlier later,
    fun apart same _ member launch =>
      steady_of_sameLaunch plan apart earlier later same member launch⟩

/-! ### A change that needs no rebuild, and one that is only said not to -/

/-- A game whose mode, a line of its file, decides whether a variable is written. -/
def modeGame : GameDefinition where
  id := "game"
  name := "Game"
  config := [
    { key := "mode", label := "Mode", type := .enum, default := .string ['a']
      target := .properties "server.properties" "mode".toList none false false
      options := some [['a'], ['b'], ['c']] },
    { key := "map", label := "Map", type := .string, default := .string ['m']
      target := .env "MAP" false
      shownWhen := some ⟨"mode", [.string ['b'], .string ['c']]⟩ }]

def inMode (mode : Char) : ConfigValues := .ofEntries [("mode", .string [mode])]

def modeRendered (mode : Char) (env : Record String (List Char)) : RenderedConfig :=
  ⟨env, .ofEntries [("server.properties",
    ⟨"server.properties", .properties, [⟨[], "mode".toList, [mode], false⟩]⟩)], []⟩

/-- The variable as it is written when nobody has sent one. -/
def withMap : Record String (List Char) := .ofEntries [("MAP", ['m'])]

/-- From one mode that has the variable to the other. -/
theorem no_rebuild_needed_modes :
    (∃ first second, renderConfig ascii modeGame (inMode 'b') none {} = .ok first ∧
      renderConfig ascii modeGame (inMode 'c') none {} = .ok second ∧
        first.env.get "MAP" = some ['m'] ∧ SameLaunch first second) ∧
      ∀ field ∈ modeGame.config, field.target.needsRecreate = true →
        Steady ascii modeGame {} (inMode 'b') (inMode 'c') field := by
  have both := no_rebuild_needed ascii modeGame none {} (inMode 'b') (inMode 'c')
    (modeRendered 'b' withMap) (modeRendered 'c' withMap) (by decide +kernel) (by rfl) (by rfl)
  have steady : ∀ field ∈ modeGame.config, field.target.needsRecreate = true →
      Steady ascii modeGame {} (inMode 'b') (inMode 'c') field := by
    have written : ∀ field ∈ modeGame.config,
        Written ascii modeGame (inMode 'b') {} field =
            Written ascii modeGame (inMode 'c') {} field ∧
          (field.target.needsRecreate = true →
            asText ascii (valueIn (inMode 'b') field) = asText ascii field.default) := by
      decide +kernel
    exact fun field member launch =>
      ⟨(written field member).1, fun _ _ => (written field member).2 launch⟩
  exact ⟨⟨_, _, by rfl, by rfl, by rfl, both.1 steady⟩, steady⟩

/-- From a mode without the variable to the mode that has it. -/
theorem mode_brings_variable :
    auditDefinition ascii modeGame = [] ∧
      validateConfig ascii (fun _ _ => true) modeGame (inMode 'a') = [] ∧
      validateConfig ascii (fun _ _ => true) modeGame (inMode 'b') = [] ∧
      (planConfigChange modeGame (inMode 'a') (inMode 'b') []).needsRecreate = false ∧
      ∃ first second, renderConfig ascii modeGame (inMode 'a') none {} = .ok first ∧
        renderConfig ascii modeGame (inMode 'b') none {} = .ok second ∧
        ¬ SameLaunch first second := by
  refine ⟨by decide +kernel, by decide +kernel, by decide +kernel, by decide +kernel,
    modeRendered 'a' .empty, modeRendered 'b' withMap, by rfl, by rfl, ?_⟩
  intro same
  have variable_ := same.1 "MAP"
  cases variable_

end Geeboard.Games
