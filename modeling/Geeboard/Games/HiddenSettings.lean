/-
This file is what a reader of a server's settings is given of the secret ones.

Whoever may not change the settings is given them without the values of secret
settings, and the drift without theirs; whoever may is given a mark in place of a
secret that is set, and the mark sent back means what is stored. The log records a
secret as changed and neither value. Two runs over values that differ in secrets
only are compared: what the first reader is given of them is the same.
-/

import Geeboard.Games.Readings

namespace Geeboard.Games

open List Option
open Text (Record)

/-! ### What is given -/

/-- Drift, without what a secret setting holds on either side. -/
def driftWithoutSecrets (game : GameDefinition) (drift : List ConfigDrift) : List ConfigDrift :=
  drift.filter fun one => !isSecret game one.key

/-- A secret that is set as the mark; an empty one stays empty. -/
def marked (value : ConfigValue) : ConfigValue :=
  if value = .string [] then value else .string SECRET_MASK

/-- The values with every secret that is set replaced by the mark. -/
def maskSecrets (game : GameDefinition) (values : ConfigValues) : ConfigValues :=
  values.mapValues fun key value => if isSecret game key then marked value else value

/-- What a settings reader is given. -/
structure SettingsView where
  stored : ConfigValues
  onNode : ConfigValues
  drift : List ConfigDrift
  hidden : List String
  deriving DecidableEq, Repr

def settingsFor (game : GameDefinition) (seesSecrets : Bool) (stored onNode : ConfigValues)
    (drift : List ConfigDrift) : SettingsView :=
  if seesSecrets then
    { stored := maskSecrets game stored
      onNode := maskSecrets game onNode
      drift := drift.map fun one =>
        if isSecret game one.key then
          { one with stored := marked one.stored, onServer := marked one.onServer }
        else one
      hidden := [] }
  else
    { stored := withoutSecrets game stored
      onNode := withoutSecrets game onNode
      drift := driftWithoutSecrets game drift
      hidden := secretKeys game }

/-- A change as the log has it. -/
structure Recorded where
  from_ : List Char
  to_ : List Char
  deriving DecidableEq, Repr

def notRecorded : Recorded := ⟨"not recorded".toList, "changed".toList⟩

def recordedChange (language : Language) (game : GameDefinition) (change : ConfigChange) :
    Recorded :=
  if isSecret game change.key then notRecorded
  else ⟨asText language change.before, asText language change.after⟩

/-- Changes as the audit log records them: before and after, except for a secret. -/
def auditedChanges (language : Language) (game : GameDefinition) (changes : List ConfigChange) :
    Record String Recorded :=
  .ofEntries (changes.map fun change => (change.label, recordedChange language game change))

/-! ### Values that differ in secrets only -/

section

variable {game : GameDefinition}

/-- The same value, or one of a secret that is set in both. -/
def SameButSecret (game : GameDefinition) (one other : String × ConfigValue) : Prop :=
  one.1 = other.1 ∧
    (one.2 = other.2 ∨
      isSecret game one.1 = true ∧ one.2 ≠ .string [] ∧ other.2 ≠ .string [])

/-- Two sets of values that differ only in the values of secrets, which both have set. -/
def DifferInSecrets (game : GameDefinition) (first second : ConfigValues) : Prop :=
  List.Forall₂ (SameButSecret game) first.entries second.entries

theorem withoutSecrets_same {first second : ConfigValues}
    (differ : DifferInSecrets game first second) :
    withoutSecrets game first = withoutSecrets game second := by
  have entries : first.entries.filter (fun entry => !isSecret game entry.1) =
      second.entries.filter fun entry => !isSecret game entry.1 := by
    unfold DifferInSecrets at differ
    generalize first.entries = one at differ
    generalize second.entries = other at differ
    induction differ with
    | nil => rfl
    | cons same _ inductionHypothesis =>
      obtain ⟨key, value⟩ := same
      rw [filter_cons, filter_cons, inductionHypothesis, ← key]
      split
      · rename_i shown
        rcases value with equal | ⟨secret, -⟩
        · rw [Prod.ext key equal]
        · rw [secret] at shown
          cases shown
      · rfl
  unfold withoutSecrets Record.only
  congr

theorem get_differ {first second : ConfigValues} (differ : DifferInSecrets game first second)
    (key : String) :
    first.get key = second.get key ∨
      isSecret game key = true ∧ ∃ one other, first.get key = some one ∧
        second.get key = some other ∧ one ≠ .string [] ∧ other ≠ .string [] := by
  unfold DifferInSecrets at differ
  unfold Record.get
  generalize first.entries = one at differ
  generalize second.entries = other at differ
  induction differ with
  | nil => exact .inl rfl
  | @cons entry entry' _ _ same _ inductionHypothesis =>
    obtain ⟨named, value⟩ := same
    rw [find?_cons, find?_cons, ← named]
    by_cases here : entry.1 = key
    · rw [beq_iff_eq.mpr here]
      rcases value with equal | ⟨secret, set, alsoSet⟩
      · exact .inl (congrArg some equal)
      · exact .inr ⟨here ▸ secret, entry.2, entry'.2, rfl, rfl, set, alsoSet⟩
    · rw [beq_eq_false_iff_ne.mpr here]
      exact inductionHypothesis

theorem get_same {first second : ConfigValues} (differ : DifferInSecrets game first second)
    {key : String} (shown : isSecret game key = false) : first.get key = second.get key := by
  refine (get_differ differ key).resolve_right fun secret => ?_
  rw [shown] at secret
  cases secret.1

/-! ### Drift and the log -/

theorem driftWithoutSecrets_same {stored stored' onServer onServer' : ConfigValues}
    (differ : DifferInSecrets game stored stored')
    (differToo : DifferInSecrets game onServer onServer') :
    driftWithoutSecrets game (configDrift game stored onServer) =
      driftWithoutSecrets game (configDrift game stored' onServer') := by
  unfold driftWithoutSecrets configDrift
  rw [filter_filterMap, filter_filterMap]
  refine filterMap_congr fun field _ => ?_
  have named : ∀ {stored onServer : ConfigValues} {one : ConfigDrift},
      driftOf stored onServer field = some one → one.key = field.key := by
    intro stored onServer one drift
    unfold driftOf at drift
    obtain ⟨theirs, -, made⟩ := bind_eq_some_iff.mp drift
    dsimp only at made
    split at made
    · cases made
    · cases made
      rfl
  by_cases secret : isSecret game field.key = true
  · have left : ∀ {stored onServer : ConfigValues},
        (driftOf stored onServer field).filter (fun one => !isSecret game one.key) = none := by
      intro stored onServer
      refine filter_eq_none_iff.mpr fun one drift => ?_
      rw [named drift, secret]
      decide
    rw [left, left]
  · rw [Bool.not_eq_true] at secret
    unfold driftOf
    rw [get_same differ secret, get_same differToo secret]

theorem shown_of_mem_drift {drift : List ConfigDrift} {one : ConfigDrift}
    (member : one ∈ driftWithoutSecrets game drift) : isSecret game one.key = false := by
  have shown := (mem_filter.mp member).2
  rwa [Bool.not_eq_true'] at shown

/-- A setting is changed by a save: it is sent, and was another value. -/
def Changed (before after : ConfigValues) (field : ConfigField) : Prop :=
  ∃ to_, after.get field.key = some to_ ∧ (before.get field.key).getD field.default ≠ to_

/-- What the log has of a setting, under its label. -/
def auditedField (language : Language) (game : GameDefinition) (before after : ConfigValues)
    (field : ConfigField) : Option (String × Recorded) :=
  (after.get field.key).bind fun to_ =>
    let from_ := (before.get field.key).getD field.default
    if from_ = to_ then none
    else
      some (field.label, if isSecret game field.key then notRecorded
        else ⟨asText language from_, asText language to_⟩)

theorem auditedChanges_eq (language : Language) (before after : ConfigValues)
    (held : List String) :
    auditedChanges language game (planConfigChange game before after held).changes =
      .ofEntries (game.config.filterMap (auditedField language game before after)) := by
  unfold auditedChanges planConfigChange
  dsimp only
  rw [map_filterMap]
  refine congrArg Record.ofEntries (filterMap_congr fun field _ => ?_)
  unfold auditedField
  cases after.get field.key with
  | none => rfl
  | some to_ =>
    rw [bind_some]
    dsimp only
    split
    · rfl
    · rfl

theorem auditedField_label {language : Language} {before after : ConfigValues}
    {field : ConfigField} {entry : String × Recorded}
    (made : auditedField language game before after field = some entry) :
    entry.1 = field.label := by
  obtain ⟨to_, -, entry_⟩ := bind_eq_some_iff.mp made
  dsimp only at entry_
  split at entry_
  · cases entry_
  · cases entry_
    rfl

theorem changed_of_auditedField {language : Language} {before after : ConfigValues}
    {field : ConfigField} {entry : String × Recorded}
    (made : auditedField language game before after field = some entry) :
    Changed before after field := by
  obtain ⟨to_, sent, entry_⟩ := bind_eq_some_iff.mp made
  dsimp only at entry_
  split at entry_
  · cases entry_
  · rename_i different
    exact ⟨to_, sent, different⟩

theorem auditedField_secret {language : Language} {before after : ConfigValues}
    {field : ConfigField} (secret : isSecret game field.key = true)
    (changed : Changed before after field) :
    auditedField language game before after field = some (field.label, notRecorded) := by
  obtain ⟨to_, sent, different⟩ := changed
  unfold auditedField
  rw [sent, bind_some]
  dsimp only
  rw [if_neg different, if_pos secret]

/-- The log has the same of a setting in both runs, unless it is a secret that changed in one of
them only. -/
theorem auditedField_same (language : Language) {before before' after after' : ConfigValues}
    (differ : DifferInSecrets game before before') (differToo : DifferInSecrets game after after')
    {field : ConfigField} (alike : isSecret game field.key = true →
      (Changed before after field ↔ Changed before' after' field)) :
    auditedField language game before after field =
      auditedField language game before' after' field := by
  by_cases secret : isSecret game field.key = true
  · by_cases changed : Changed before after field
    · rw [auditedField_secret secret changed,
        auditedField_secret secret ((alike secret).mp changed)]
    · have missed : ∀ {before after : ConfigValues}, ¬ Changed before after field →
          auditedField language game before after field = none :=
        fun unchanged => eq_none_iff_forall_ne_some.mpr fun _ made =>
          unchanged (changed_of_auditedField made)
      rw [missed changed, missed fun also_ => changed ((alike secret).mpr also_)]
  · rw [Bool.not_eq_true] at secret
    unfold auditedField
    rw [get_same differ secret, get_same differToo secret]

/-- The mark of a secret, or what was sent for a setting that is none. -/
theorem recorded_of_mem {language : Language} {changes : List ConfigChange} {label : String}
    {recorded : Recorded}
    (member : (label, recorded) ∈ (auditedChanges language game changes).entries) :
    recorded = notRecorded ∨ ∃ change ∈ changes, isSecret game change.key = false ∧
      change.label = label ∧
      recorded = ⟨asText language change.before, asText language change.after⟩ := by
  obtain ⟨change, inside, entry⟩ := List.mem_map.mp (Record.mem_ofEntries member)
  obtain ⟨named, made⟩ := Prod.mk.inj entry
  unfold recordedChange at made
  split at made
  · exact .inl made.symm
  · rename_i shown
    rw [Bool.not_eq_true] at shown
    exact .inr ⟨change, inside, shown, named, made.symm⟩

/-! ### The mark, sent back -/

/-- One key with the mark put back to what is stored. -/
def unmaskKey (stored out : ConfigValues) (key : String) : ConfigValues :=
  if out.get key = some (.string SECRET_MASK) then
    match stored.get key with
    | some value => out.set key value
    | none => out.only fun other => other != key
  else out

theorem unmaskSecrets_eq (values stored : ConfigValues) :
    unmaskSecrets game values stored = (secretKeys game).foldl (unmaskKey stored) values := rfl

theorem get_unmaskKey (stored out : ConfigValues) (key other : String) :
    (unmaskKey stored out key).get other =
      if key = other ∧ out.get other = some (.string SECRET_MASK) then stored.get other
      else out.get other := by
  unfold unmaskKey
  by_cases mark : out.get key = some (.string SECRET_MASK)
  · rw [if_pos mark]
    by_cases same : key = other
    · rw [if_pos ⟨same, same ▸ mark⟩, ← same]
      split
      · rename_i value held
        rw [Record.get_set_self, held]
      · rename_i none_
        rw [Record.get_only, none_, bne_self_eq_false]
        rfl
    · rw [if_neg fun both => same both.1]
      split
      · exact Record.get_set_of_ne _ _ same
      · rw [Record.get_only, if_pos (bne_iff_ne.mpr fun equal => same equal.symm)]
  · rw [if_neg mark, if_neg]
    rintro ⟨rfl, also_⟩
    exact mark also_

/-- What is saved for a key: what is stored where the mark came back for a secret, and otherwise
what was sent. -/
theorem get_unmaskSecrets (values stored : ConfigValues) (key : String) :
    (unmaskSecrets game values stored).get key =
      if isSecret game key = true ∧ values.get key = some (.string SECRET_MASK) then
        stored.get key
      else values.get key := by
  rw [unmaskSecrets_eq]
  unfold isSecret
  generalize secretKeys game = keys
  induction keys generalizing values with
  | nil => exact (if_neg fun both => by cases both.1).symm
  | cons first keys inductionHypothesis =>
    rw [foldl_cons, inductionHypothesis, contains_cons]
    have middle := get_unmaskKey stored values first key
    by_cases put : first = key ∧ values.get key = some (.string SECRET_MASK)
    · rw [if_pos put] at middle
      rw [middle, ite_self, if_pos]
      exact ⟨by rw [put.1, beq_self_eq_true]; rfl, put.2⟩
    · rw [if_neg put] at middle
      rw [middle]
      refine ite_congr (propext (and_congr_left fun mark => ?_)) (fun _ => rfl) fun _ => rfl
      have other : key ≠ first := fun equal => put ⟨equal.symm, mark⟩
      rw [beq_eq_false_iff_ne.mpr other, Bool.false_or]

theorem keys_unmaskSecrets {values stored : ConfigValues}
    (held : ∀ key ∈ values.keys, key ∈ stored.keys) :
    (unmaskSecrets game values stored).keys = values.keys := by
  rw [unmaskSecrets_eq]
  generalize secretKeys game = keys
  induction keys generalizing values with
  | nil => rfl
  | cons first keys inductionHypothesis =>
    have one : (unmaskKey stored values first).keys = values.keys := by
      unfold unmaskKey
      split
      · rename_i mark
        have member : first ∈ values.keys := by
          rw [Record.mem_keys_iff]
          unfold Record.has
          rw [mark]
          rfl
        split
        · exact Record.keys_set_of_mem _ member
        · rename_i none_
          have there := (Record.mem_keys_iff _ _).mp (held first member)
          unfold Record.has at there
          rw [none_] at there
          cases there
      · rfl
    rw [foldl_cons, inductionHypothesis (by rw [one]; exact held), one]

theorem get_maskSecrets (values : ConfigValues) (key : String) :
    (maskSecrets game values).get key =
      (values.get key).map fun value => if isSecret game key then marked value else value :=
  Record.get_mapValues _ _ _

/-- A secret reads as the mark when it is set, and as nothing when it is empty. -/
theorem marked_cases (value : ConfigValue) :
    marked value = .string SECRET_MASK ∨ value = .string [] ∧ marked value = .string [] := by
  unfold marked
  split
  · rename_i empty
    exact .inr ⟨empty, empty⟩
  · exact .inl rfl

/-- Masked and sent back untouched, the values are those that are stored. -/
theorem unmask_mask (stored : ConfigValues) :
    unmaskSecrets game (maskSecrets game stored) stored = stored := by
  have keys : (maskSecrets game stored).keys = stored.keys := Record.keys_mapValues _ _
  refine Record.eq_of_get ?_ fun key => ?_
  · rw [keys_unmaskSecrets fun key member => keys ▸ member, keys]
  · rw [get_unmaskSecrets]
    by_cases back : isSecret game key = true ∧
        (maskSecrets game stored).get key = some (.string SECRET_MASK)
    · rw [if_pos back]
    · rw [if_neg back]
      rw [get_maskSecrets] at back ⊢
      cases held : stored.get key with
      | none => rfl
      | some value =>
        rw [held, map_some] at back
        rw [map_some]
        by_cases secret : isSecret game key = true
        · rw [if_pos secret] at back ⊢
          rcases marked_cases value with mark | ⟨empty, still⟩
          · exact absurd ⟨secret, congrArg some mark⟩ back
          · rw [still, empty]
        · rw [if_neg secret]

/-- The settings page draws the files' values over the stored ones. Sent back untouched, a secret is
saved as it is stored, unless its file holds an empty one, which the page shows. -/
theorem unmask_form {stored onNode : ConfigValues} {key : String} (secret : isSecret game key = true)
    (notEmptied : onNode.get key ≠ some (.string [])) :
    (unmaskSecrets game ((maskSecrets game stored).merge (maskSecrets game onNode)) stored).get key =
      stored.get key := by
  have mark : ∀ value, value ≠ .string [] → marked value = .string SECRET_MASK :=
    fun value some_ => (marked_cases value).resolve_right fun both => some_ both.1
  rw [get_unmaskSecrets]
  by_cases back : isSecret game key = true ∧
      ((maskSecrets game stored).merge (maskSecrets game onNode)).get key =
        some (.string SECRET_MASK)
  · rw [if_pos back]
  · rw [if_neg back]
    rw [Record.get_merge, get_maskSecrets, get_maskSecrets] at back ⊢
    simp only [if_pos secret] at back ⊢
    cases there : onNode.get key with
    | some value =>
      rw [there] at notEmptied
      rw [there, map_some, mark value fun empty => notEmptied (congrArg some empty)] at back
      exact absurd ⟨secret, rfl⟩ back
    | none =>
      rw [there, map_none, none_or] at back
      rw [map_none, none_or]
      cases held : stored.get key with
      | none => rfl
      | some value =>
        rw [held, map_some] at back
        rcases marked_cases value with is | ⟨empty, still⟩
        · exact absurd ⟨secret, congrArg some is⟩ back
        · rw [map_some, still, empty]

end

/-- A reader who may not see secrets is given the same in two runs that differ in secrets only, and
no secret's drift; the log has the same of every label, unless a secret under it changed in one run
only, and of a secret neither value; and a form sent back untouched saves what is stored. -/
theorem secrets_stay_hidden (language : Language) (game : GameDefinition)
    (stored stored' before before' after after' : ConfigValues)
    (files files' : List ConfigFileContents) (held : List String)
    (storedDiffer : DifferInSecrets game stored stored')
    (filesDiffer : DifferInSecrets game (readConfigValues language game files)
      (readConfigValues language game files'))
    (beforeDiffer : DifferInSecrets game before before')
    (afterDiffer : DifferInSecrets game after after') :
    let onNode := readConfigValues language game files
    let onNode' := readConfigValues language game files'
    let drift := configDrift game stored onNode
    let changes := (planConfigChange game before after held).changes
    let changes' := (planConfigChange game before' after' held).changes
    settingsFor game false stored onNode drift =
        settingsFor game false stored' onNode' (configDrift game stored' onNode') ∧
      (∀ one ∈ (settingsFor game false stored onNode drift).drift,
        isSecret game one.key = false) ∧
      (∀ label, (∀ field ∈ game.config, field.label = label → isSecret game field.key = true →
          (Changed before after field ↔ Changed before' after' field)) →
        (auditedChanges language game changes).get label =
          (auditedChanges language game changes').get label) ∧
      (∀ label recorded, (label, recorded) ∈ (auditedChanges language game changes).entries →
        recorded = notRecorded ∨ ∃ change ∈ changes, isSecret game change.key = false ∧
          change.label = label ∧
          recorded = ⟨asText language change.before, asText language change.after⟩) ∧
      unmaskSecrets game (settingsFor game true stored onNode drift).stored stored = stored ∧
      ∀ key, isSecret game key = true → onNode.get key ≠ some (.string []) →
        (unmaskSecrets game ((settingsFor game true stored onNode drift).stored.merge
          (settingsFor game true stored onNode drift).onNode) stored).get key =
            stored.get key := by
  intro onNode onNode' drift changes changes'
  refine ⟨?_, fun one member => shown_of_mem_drift member, fun label alike => ?_,
    fun label recorded member => recorded_of_mem member, unmask_mask stored,
    fun key secret notEmptied => unmask_form secret notEmptied⟩
  · have view : ∀ stored onNode : ConfigValues,
        settingsFor game false stored onNode (configDrift game stored onNode) =
          ⟨withoutSecrets game stored, withoutSecrets game onNode,
            driftWithoutSecrets game (configDrift game stored onNode), secretKeys game⟩ :=
      fun _ _ => rfl
    rw [view, view, withoutSecrets_same storedDiffer, withoutSecrets_same filesDiffer,
      driftWithoutSecrets_same storedDiffer filesDiffer]
  · rw [auditedChanges_eq, auditedChanges_eq]
    exact Record.get_ofEntries_filterMap_congr (fun _ _ => auditedField_label)
      (fun _ _ => auditedField_label) fun field member named =>
        auditedField_same language beforeDiffer afterDiffer (alike field member named)

/-! ### A game with a join password -/

/-- A game with a message and a join password in one file. -/
def joinGame : GameDefinition where
  id := "join"
  name := "Join"
  config := [
    { key := "motd", label := "Message", type := .string, default := .string [],
      target := .properties "server.properties" "motd".toList none false false },
    { key := "password", label := "Password", type := .string, default := .string [],
      target := .properties "server.properties" "password".toList none false false,
      secret := true }]

def joinValues (password : List Char) : ConfigValues :=
  .ofEntries [("motd", .string "hello".toList), ("password", .string password)]

def joinFiles (password : List Char) : List ConfigFileContents :=
  [⟨"server.properties", "motd=hi\npassword=".toList ++ password⟩]

theorem joinValues_differ : DifferInSecrets joinGame (joinValues "one".toList)
    (joinValues "two".toList) :=
  .cons ⟨rfl, .inl rfl⟩ (.cons ⟨rfl, .inr ⟨by decide, by decide, by decide⟩⟩ .nil)

theorem joinFiles_differ : DifferInSecrets joinGame
    (readConfigValues ascii joinGame (joinFiles "three".toList))
    (readConfigValues ascii joinGame (joinFiles "four".toList)) := by
  have read : ∀ password ∈ ["three".toList, "four".toList],
      (readConfigValues ascii joinGame (joinFiles password)).entries =
        [("motd", .string "hi".toList), ("password", .string password)] := by
    decide +kernel
  unfold DifferInSecrets
  rw [read _ (by decide), read _ (by decide)]
  exact .cons ⟨rfl, .inl rfl⟩ (.cons ⟨rfl, .inr ⟨by decide, by decide, by decide⟩⟩ .nil)

/-- What a reader is given who may not see the password. -/
def joinView (stored file : List Char) : SettingsView :=
  settingsFor joinGame false (joinValues stored)
    (readConfigValues ascii joinGame (joinFiles file))
    (configDrift joinGame (joinValues stored) (readConfigValues ascii joinGame (joinFiles file)))

theorem secrets_stay_hidden_joinGame :
    joinView "one".toList "three".toList = joinView "two".toList "four".toList :=
  (secrets_stay_hidden ascii joinGame _ _ _ _ _ _ _ _ [] joinValues_differ joinFiles_differ
    joinValues_differ joinValues_differ).1

end Geeboard.Games
