/-
This file is about settings that are shown by other settings' values, on each of a
game's version lines.

A definition is audited as a whole, and the panel works on it narrowed to one
line. A key may belong to several settings there, one a line. The audit wants the
deciding key to be some setting's, and follows the rules by the first setting of
each key; on a line that setting may be missing, and another one stand in its
place with a rule of its own. The rules are sound on every line exactly when every
setting has its decider on each line it is on, and no rules go round on a line
through a setting that is not the first of its key.
-/

import Geeboard.Games.Validation
import Geeboard.Systems.Chains

namespace Geeboard.Games

open Systems List Option

/-! ### Following the rules -/

/-- The setting whose value shows a setting. -/
def deciderOf (config : List ConfigField) (field : ConfigField) : Option ConfigField :=
  field.shownWhen.bind fun rule => config.find? fun other => other.key == rule.key

/-- Every rule names a setting there is, and following the rules from any setting ends without
meeting a setting twice. -/
structure RulesSound (config : List ConfigField) : Prop where
  named : ∀ field ∈ config, ∀ rule, field.shownWhen = some rule →
    ∃ other ∈ config, other.key = rule.key
  neverBack : ∀ field ∈ config, NeverBack (deciderOf config) field
  stops : ∀ field ∈ config, StopsWithin (deciderOf config) config.length field

/-- A setting is shown by another one, both of them among some settings. -/
def ShownBy (config : List ConfigField) (field other : ConfigField) : Prop :=
  other ∈ config ∧ ∃ rule, field.shownWhen = some rule ∧ other.key = rule.key

/-- The setting names the line, or no lines at all. -/
def ConfigField.onLine (field : ConfigField) (line : Option String) : Bool :=
  field.lines.all fun lines => line.any lines.contains

/-- What a definition's rules are to the lines its settings name: on each line that a setting with a
rule is on, there is a setting that decides it; and no rules go round through a setting that is not
the first of its key. -/
structure RulesFitLines (game : GameDefinition) : Prop where
  deciders : ∀ version ∈ game.versions, ∀ field ∈ game.config, ∀ rule,
    field.shownWhen = some rule → field.onLine version.line = true →
      ∃ other ∈ game.config, other.key = rule.key ∧ other.onLine version.line = true
  variants : ∀ version ∈ game.versions, ∀ field ∈ configFor game version.line,
    (game.config.find? fun other => other.key == field.key) ≠ some field →
      ¬ Relation.TransGen (ShownBy (configFor game version.line)) field field

variable {field : ConfigField} {config : List ConfigField}

theorem mem_configFor {game : GameDefinition} {line : Option String} :
    field ∈ configFor game line ↔ field ∈ game.config ∧ field.onLine line = true := by
  unfold configFor ConfigField.onLine
  rw [mem_filter]
  cases field.lines with
  | none => rfl
  | some lines => rfl

theorem deciderOf_eq_some {other : ConfigField} (decides : deciderOf config field = some other) :
    ShownBy config field other := by
  obtain ⟨rule, isRule, found⟩ := bind_eq_some_iff.mp decides
  have same := find?_some found
  exact ⟨mem_of_find?_eq_some found, rule, isRule, eq_of_beq same⟩

theorem find?_of_distinct (distinct : (config.map ConfigField.key).Nodup)
    (fieldIn : field ∈ config) :
    (config.find? fun other => other.key == field.key) = some field := by
  rcases found : config.find? fun other => other.key == field.key with _ | other
  · exact absurd (beq_self_eq_true field.key) (find?_eq_none.mp found field fieldIn)
  · have same := find?_some found
    rw [found, inj_on_of_nodup_map distinct (mem_of_find?_eq_some found) fieldIn
      (eq_of_beq same)]

theorem deciderOf_of_shownBy (distinct : (config.map ConfigField.key).Nodup) {other : ConfigField}
    (shown : ShownBy config field other) : deciderOf config field = some other := by
  obtain ⟨otherIn, rule, isRule, same⟩ := shown
  unfold deciderOf
  rw [isRule, bind_some, ← same]
  exact find?_of_distinct distinct otherIn

/-! ### What the audit finds -/

/-- A key is one setting's on each line. -/
theorem distinct_of_auditKeys {game : GameDefinition} (passes : auditKeys game = [])
    {version : GameVersion} (versionIn : version ∈ game.versions) :
    ((configFor game version.line).map ConfigField.key).Nodup := by
  rw [nodup_iff_count_le_one]
  intro key
  by_contra several
  have keyIn : key ∈ game.config.map ConfigField.key := by
    obtain ⟨field, fieldIn, rfl⟩ :=
      List.mem_map.mp (count_pos_iff.mp (Nat.lt_trans Nat.zero_lt_one (not_le.mp several)))
    exact List.mem_map_of_mem (mem_of_mem_filter fieldIn)
  have more : List.count key ((configFor game version.line).map ConfigField.key) ≤
      ((game.config.filter fun field => field.key == key).filter fun field =>
        field.lines.all fun some_ => some_.contains (version.line.getD "")).length := by
    unfold configFor
    rw [count_eq_countP, countP_map, countP_filter, List.filter_filter,
      ← countP_eq_length_filter]
    refine countP_mono_left fun field _ both => ?_
    obtain ⟨same, on⟩ := Bool.and_eq_true_iff.mp both
    refine Bool.and_eq_true_iff.mpr ⟨?_, same⟩
    rcases lines : field.lines with _ | named
    · rfl
    · rw [lines] at on
      rcases line : version.line with _ | name
      · rw [line] at on
        cases on
      · rw [line] at on
        exact on
  have fewer := (filter_sublist (l := game.config.filter fun field => field.key == key)
    (p := fun field => field.lines.all fun some_ =>
      some_.contains (version.line.getD ""))).length_le
  have none := flatMap_eq_nil_iff.mp passes key (mem_eraseDups.mpr keyIn)
  dsimp only at none
  rw [if_neg (by omega), map_eq_nil_iff, filter_eq_nil_iff] at none
  refine none (version.line.getD "")
    (mem_eraseDups.mpr (List.mem_map_of_mem versionIn)) (decide_eq_true ?_)
  omega

theorem comesBack_some {steps : Nat} {seen : List String}
    (ends : comesBack config steps seen (some field) = false) (ruled : field.shownWhen ≠ none) :
    field.key ∉ seen ∧ ∃ fewer, comesBack config fewer (field.key :: seen)
      (deciderOf config field) = false := by
  cases steps with
  | zero => cases ends
  | succ steps =>
    rcases isRule : field.shownWhen with _ | rule
    · exact absurd isRule ruled
    · unfold comesBack at ends
      rw [isRule] at ends
      obtain ⟨fresh, onward⟩ := Bool.or_eq_false_iff.mp ends
      refine ⟨fun again => ?_, steps, ?_⟩
      · rw [contains_iff_mem.mpr again] at fresh
        cases fresh
      · unfold deciderOf
        rw [isRule, bind_some]
        exact onward

/-- A chain the audit follows meets none of the keys it has seen. -/
theorem fresh_of_comesBack {count steps : Nat} {seen : List String} {start : ConfigField}
    (ends : comesBack config steps seen (some start) = false)
    (goes : Systems.after (deciderOf config) count start = some field)
    (ruled : field.shownWhen ≠ none) : field.key ∉ seen := by
  induction count generalizing steps seen start with
  | zero =>
    cases goes
    exact (comesBack_some ends ruled).1
  | succ count inductionHypothesis =>
    obtain ⟨next, onward, goes⟩ := bind_eq_some_iff.mp goes
    have startRuled : start.shownWhen ≠ none := by
      intro none
      unfold deciderOf at onward
      rw [none] at onward
      cases onward
    obtain ⟨-, fewer, further⟩ := comesBack_some ends startRuled
    rw [onward] at further
    exact fun again => inductionHypothesis further goes (mem_cons_of_mem _ again)

/-- By the first setting of each key, no rules of an audited definition go round. -/
theorem not_round_of_auditShownWhen {language : Language} {game : GameDefinition}
    (passes : auditShownWhen language game field = []) :
    ¬ Relation.TransGen (fun place other => deciderOf game.config place = some other)
      field field := by
  intro round
  obtain ⟨count, back⟩ := exists_after_of_transGen round
  obtain ⟨next, onward, goes⟩ := bind_eq_some_iff.mp back
  obtain ⟨rule, isRule, isNext⟩ := bind_eq_some_iff.mp onward
  unfold auditShownWhen at passes
  rw [isRule] at passes
  dsimp only at passes
  rw [isNext] at passes
  obtain ⟨-, ends⟩ := append_eq_nil_iff.mp passes
  have ends : comesBack game.config (game.config.length + 1) [field.key] (some next) = false := by
    by_contra returns
    rw [if_pos (Bool.not_eq_false _ ▸ returns)] at ends
    cases ends
  exact fresh_of_comesBack ends goes (by rw [isRule]; exact some_ne_none rule)
    mem_cons_self

/-! ### What the audit does not find -/

variable {language : Language} {game : GameDefinition}

theorem distinct_on_line (passes : auditDefinition language game = []) {version : GameVersion}
    (versionIn : version ∈ game.versions) :
    ((configFor game version.line).map ConfigField.key).Nodup := by
  unfold auditDefinition at passes
  simp only [append_eq_nil_iff] at passes
  exact distinct_of_auditKeys passes.1.1.1.1.1.1 versionIn

theorem not_round_of_audit (passes : auditDefinition language game = [])
    (fieldIn : field ∈ game.config) :
    ¬ Relation.TransGen (fun place other => deciderOf game.config place = some other)
      field field := by
  unfold auditDefinition at passes
  simp only [append_eq_nil_iff] at passes
  exact not_round_of_auditShownWhen
    (append_eq_nil_iff.mp (flatMap_eq_nil_iff.mp passes.2 field fieldIn)).1

/-- Where no rules go round through a setting that is not the first of its key, none do. -/
theorem not_round_on_line (passes : auditDefinition language game = [])
    (fits : RulesFitLines game) {version : GameVersion} (versionIn : version ∈ game.versions) (field : ConfigField) :
    ¬ Relation.TransGen (ShownBy (configFor game version.line)) field field := by
  intro round
  have first {other : ConfigField}
      (otherRound : Relation.TransGen (ShownBy (configFor game version.line)) other other) :
      (game.config.find? fun third => third.key == other.key) = some other := by
    obtain ⟨_, -, otherIn, -⟩ := Relation.TransGen.tail'_iff.mp otherRound
    by_contra later
    exact fits.variants version versionIn other otherIn later otherRound
  have whole {other : ConfigField}
      (leads : Relation.TransGen (ShownBy (configFor game version.line)) field other)
      (back : Relation.ReflTransGen (ShownBy (configFor game version.line)) other field) :
      Relation.TransGen (fun place other => deciderOf game.config place = some other)
        field other := by
    induction leads with
    | single shown =>
      have isFirst := first (Relation.TransGen.tail' back shown)
      obtain ⟨-, rule, isRule, same⟩ := shown
      refine Relation.TransGen.single ?_
      unfold deciderOf
      rwa [isRule, bind_some, ← same]
    | tail before shown inductionHypothesis =>
      have isFirst := first (Relation.TransGen.trans_right back (before.tail shown))
      refine (inductionHypothesis (back.head shown)).tail ?_
      obtain ⟨-, rule, isRule, same⟩ := shown
      unfold deciderOf
      rwa [isRule, bind_some, ← same]
  have fieldIn : field ∈ game.config := mem_of_find?_eq_some (first round)
  exact not_round_of_audit passes fieldIn (whole round Relation.ReflTransGen.refl)

/-- In an audited definition the rules are sound on every version line exactly when they fit the
lines the settings are on. -/
theorem rules_sound_iff (language : Language) (game : GameDefinition)
    (passes : auditDefinition language game = []) :
    (∀ version ∈ game.versions, RulesSound (scopeToLine game version.line).config) ↔
      RulesFitLines game := by
  constructor
  · intro sound
    refine ⟨fun version versionIn field fieldIn rule isRule on => ?_,
      fun version versionIn field on _ round => ?_⟩
    · obtain ⟨other, otherOn, same⟩ := (sound version versionIn).named field
        (mem_configFor.mpr ⟨fieldIn, on⟩) rule isRule
      obtain ⟨otherIn, there⟩ := mem_configFor.mp otherOn
      exact ⟨other, otherIn, same, there⟩
    · have distinct := distinct_on_line passes versionIn
      have goes := Relation.TransGen.mono (fun _ _ => deciderOf_of_shownBy distinct) _ _ round
      obtain ⟨count, back⟩ := exists_after_of_transGen goes
      exact (sound version versionIn).neverBack field on 0 (count + 1) (Nat.succ_pos count) field
        rfl back
  · intro fits version versionIn
    have fresh (field : ConfigField) :
        NeverBack (deciderOf (configFor game version.line)) field :=
      neverBack_of_noCircle (fun _ _ => deciderOf_eq_some)
        (not_round_on_line passes fits versionIn) field
    refine ⟨fun field on rule isRule => ?_, fun field _ => fresh field, fun field on => ?_⟩
    · obtain ⟨fieldIn, here⟩ := mem_configFor.mp on
      obtain ⟨other, otherIn, same, there⟩ := fits.deciders version versionIn field fieldIn rule
        isRule here
      exact ⟨other, mem_configFor.mpr ⟨otherIn, there⟩, same⟩
    · exact stopsWithin_of_neverBack (fun _ _ decides => (deciderOf_eq_some decides).1) on
        (fresh field)

/-- A game of two lines with a mode on the old one only, and a setting the mode shows on both. -/
def twoLines (lines : Option (List String)) : GameDefinition where
  id := "game"
  name := "Game"
  versions :=
    [{ id := "old", line := some "old", image := "game:old" },
      { id := "new", line := some "new", image := "game:new" }]
  config :=
    [{ key := "mode", label := "Mode", type := .enum, target := .env "MODE" false,
        default := .string "plain".toList, options := some ["plain".toList, "hard".toList],
        lines := some ["old"] },
      { key := "level", label := "Level", type := .string, target := .env "LEVEL" false,
        default := .string [], shownWhen := some ⟨"mode", [.string "hard".toList]⟩, lines }]

/-- With both settings on the old line only, the rules are sound on both. -/
theorem rules_sound_iff_old :
    RulesSound (scopeToLine (twoLines (some ["old"])) (some "old")).config ∧
      RulesSound (scopeToLine (twoLines (some ["old"])) (some "new")).config := by
  have firsts : ∀ version ∈ (twoLines (some ["old"])).versions,
      ∀ field ∈ configFor (twoLines (some ["old"])) version.line,
        ((twoLines (some ["old"])).config.find? fun other => other.key == field.key) =
          some field := by
    decide +kernel
  have deciders : ∀ version ∈ (twoLines (some ["old"])).versions,
      ∀ field ∈ (twoLines (some ["old"])).config, ∀ rule ∈ field.shownWhen,
        field.onLine version.line = true → ∃ other ∈ (twoLines (some ["old"])).config,
          other.key = rule.key ∧ other.onLine version.line = true := by
    decide +kernel
  have sound := (rules_sound_iff ascii (twoLines (some ["old"])) (by decide +kernel)).mpr
    ⟨deciders, fun version versionIn field on later =>
      absurd (firsts version versionIn field on) later⟩
  exact ⟨sound _ mem_cons_self, sound _ (mem_cons_of_mem _ mem_cons_self)⟩

/-- On the new line the setting's rule names a setting that is not there. -/
theorem rules_unsound :
    ¬ ∀ game : GameDefinition, auditDefinition ascii game = [] → ∀ version ∈ game.versions,
      RulesSound (scopeToLine game version.line).config := by
  intro sound
  have named := (sound (twoLines none) (by decide +kernel)
    { id := "new", line := some "new", image := "game:new" } (by decide +kernel)).named
  obtain ⟨other, otherIn, same⟩ := named
    { key := "level", label := "Level", type := .string, target := .env "LEVEL" false,
      default := .string [], shownWhen := some ⟨"mode", [.string "hard".toList]⟩ }
    (by decide +kernel) ⟨"mode", [.string "hard".toList]⟩ rfl
  have only : ∀ other ∈ (scopeToLine (twoLines none) (some "new")).config,
      other.key ≠ "mode" := by decide +kernel
  exact only other otherIn same

end Geeboard.Games
