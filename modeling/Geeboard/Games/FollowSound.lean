/-
This file is about definitions whose followed versions are in.

A followed version has an id glued together from the id of the version it is made
from and a version string. Ids the definition ships are left to it, and of two
followed versions of one id the first is taken; but an id that a version used to go
by is asked about nowhere on the way, nor is one of a followed version that is in
the definition already. The definition passes its audit with the followed versions
in exactly when no release has such an id, and then their images, the shipped
versions and the recommended ones are what they should be.
-/

import Geeboard.Games.FollowParts
import Mathlib.Data.List.Perm.Basic

namespace Geeboard.Games.Follow

open Systems List
open Text (Record)

variable {engine : Engine} {game : GameDefinition} {follow : TagFollow}

/-! ### The definition with its followed versions in -/

section With

variable {recommended onBranch : List String} {version : GameVersion}
  {followed : List GameVersion}

theorem flatMap_ite {Element Made : Type} (property : Element → Bool) (make : Element → List Made)
    (elements : List Element) :
    (elements.flatMap fun element => if property element then make element else []) =
      (elements.filter property).flatMap make := by
  induction elements with
  | nil => rfl
  | cons element elements inductionHypothesis =>
    rw [flatMap_cons, inductionHypothesis, filter_cons]
    split
    · rw [flatMap_cons]
    · rw [nil_append]

/-- Elements sorted out by their label are all of them that have one of the labels. -/
theorem flatMap_filter_perm {Element Label : Type} [DecidableEq Label] (label : Element → Label)
    {labels : List Label} (distinct : labels.Nodup) (elements : List Element) :
    (labels.flatMap fun one => elements.filter fun element => label element == one).Perm
      (elements.filter fun element => labels.contains (label element)) := by
  induction labels with
  | nil => rw [flatMap_nil, filter_eq_nil_iff.mpr fun _ _ => by rintro ⟨⟩]
  | cons one labels inductionHypothesis =>
    obtain ⟨new, distinct⟩ := nodup_cons.mp distinct
    rw [flatMap_cons]
    refine ((inductionHypothesis distinct).append_left _).trans ?_
    have parts := filter_append_perm (fun element => label element == one)
      (elements.filter fun element => (one :: labels).contains (label element))
    rw [List.filter_filter, List.filter_filter] at parts
    refine List.Perm.trans (Perm.of_eq ?_) parts
    congr 1
    · refine filter_congr fun element _ => ?_
      by_cases same : label element = one
      · simp [same]
      · simp [same]
    · refine filter_congr fun element _ => ?_
      by_cases same : label element = one
      · simp [same, new]
      · simp [same]

/-- The lines whose recommended version is a followed one. -/
def recommendedLines (followed : List GameVersion) : List String :=
  (followed.filter fun version => version.recommended).map GameVersion.onLine

def branchLines (followed : List GameVersion) : List String :=
  (followed.filter fun version => version.steamBranch.isSome).map GameVersion.onLine

/-- A version as it stands beside the followed ones. -/
def beside (followed : List GameVersion) : GameVersion → GameVersion :=
  demote (recommendedLines followed) (branchLines followed)

theorem templateOf_mem {versions : List GameVersion} {line : String} {template : GameVersion}
    (isTemplate : templateOf engine versions line = some template) :
    template ∈ versions ∧ mayLead line template = true :=
  mem_filter.mp ((ArraySort.mem_sort _).mp (mem_of_mem_head? isTemplate))

theorem onLine_of_mayLead {line : String} (leads : mayLead line version = true) :
    version.onLine = line ∧ version.followed = false := by
  unfold mayLead at leads
  simp only [Bool.and_eq_true, Bool.not_eq_true', beq_iff_eq] at leads
  exact ⟨leads.2, leads.1.1.1⟩

theorem beside_nil : beside [] version = version := by
  unfold beside demote recommendedLines branchLines
  simp only [filter_nil, map_nil, contains_nil, Bool.not_false, Bool.and_true,
    Bool.false_eq_true, if_false]

/-- A version whose id is a template's is the template of its line. -/
theorem template_of_id (consistent : Consistent engine game follow)
    (follows : game.followTags = some follow) (versionIn : version ∈ game.versions)
    (isId : version.id ∈ templateIds engine game) :
    templateOf engine game.versions version.onLine = some version := by
  unfold templateIds at isId
  rw [follows] at isId
  obtain ⟨rule, -, isTemplate⟩ := mem_filterMap.mp isId
  obtain ⟨template, isTemplate, sameId⟩ := Option.map_eq_some_iff.mp isTemplate
  obtain ⟨templateIn, leads⟩ := templateOf_mem isTemplate
  obtain rfl := inj_on_of_nodup_map consistent.ids templateIn versionIn sameId
  rwa [(onLine_of_mayLead leads).1]

/-- Each followed version stands in front of one version. -/
theorem flatMap_templates_perm (consistent : Consistent engine game follow)
    (follows : game.followTags = some follow)
    (lines : ∀ version ∈ followed, ∃ rule ∈ follow.lines, rule.line = version.onLine) :
    (game.versions.flatMap fun version =>
      if (templateIds engine game).contains version.id then
        followed.filter fun other => other.onLine == version.onLine
      else []).Perm followed := by
  rw [flatMap_ite, ← flatMap_map GameVersion.onLine fun line =>
    followed.filter fun other => other.onLine == line]
  have distinct : ((game.versions.filter fun version =>
      (templateIds engine game).contains version.id).map GameVersion.onLine).Nodup := by
    refine Nodup.map_on ?_ ((Nodup.of_map _ consistent.ids).filter _)
    intro first firstIn second secondIn sameLine
    obtain ⟨firstIn, firstId⟩ := mem_filter.mp firstIn
    obtain ⟨secondIn, secondId⟩ := mem_filter.mp secondIn
    have isFirst := template_of_id consistent follows firstIn (contains_iff_mem.mp firstId)
    have isSecond := template_of_id consistent follows secondIn (contains_iff_mem.mp secondId)
    rw [sameLine, isSecond] at isFirst
    exact (Option.some.inj isFirst).symm
  refine (flatMap_filter_perm GameVersion.onLine distinct followed).trans (Perm.of_eq ?_)
  rw [filter_eq_self]
  intro other otherIn
  obtain ⟨rule, ruleIn, sameLine⟩ := lines other otherIn
  obtain ⟨template, isTemplate, -⟩ := (consistent.rules rule ruleIn).template
  obtain ⟨templateIn, leads⟩ := templateOf_mem isTemplate
  refine contains_iff_mem.mpr (List.mem_map.mpr ⟨template, mem_filter.mpr ⟨templateIn,
    contains_iff_mem.mpr ?_⟩, (onLine_of_mayLead leads).1.trans sameLine⟩)
  unfold templateIds
  rw [follows]
  exact mem_filterMap.mpr ⟨rule, ruleIn, by rw [isTemplate]; rfl⟩

/-- The versions of the definition with its followed ones in. -/
theorem withFollowed_perm (consistent : Consistent engine game follow)
    (follows : game.followTags = some follow)
    (lines : ∀ version ∈ followed, ∃ rule ∈ follow.lines, rule.line = version.onLine) :
    (withFollowed engine game followed).versions.Perm
      (followed ++ game.versions.map (beside followed)) := by
  unfold withFollowed
  split
  case isTrue none =>
    rw [List.isEmpty_iff.mp none, nil_append, map_congr_left fun _ _ => beside_nil,
      List.map_id']
  · have sorted := engine.versions.perm (byUpstream "0") followed
    have apart := flatMap_append_perm game.versions (fun version =>
      if (templateIds engine game).contains version.id then
        (engine.versions.sort (byUpstream "0") followed).filter fun other =>
          other.onLine == version.onLine
      else []) fun version => [beside followed version]
    refine apart.symm.trans ?_
    rw [← map_eq_flatMap]
    refine Perm.append ?_ (List.Perm.refl _)
    refine (flatMap_templates_perm consistent follows fun version versionIn =>
      lines version (sorted.subset versionIn)).trans sorted

/-- The versions that may lead a line are those that might before. -/
theorem withFollowed_leading {line : String}
    (allFollowed : ∀ version ∈ followed, version.followed = true) :
    (withFollowed engine game followed).versions.filter (mayLead line) =
      (game.versions.filter (mayLead line)).map (beside followed) := by
  unfold withFollowed
  split
  case isTrue none =>
    rw [List.isEmpty_iff.mp none, map_congr_left fun _ _ => beside_nil, List.map_id']
  · refine Eq.trans ?_ map_eq_flatMap.symm
    rw [filter_flatMap, ← flatMap_ite]
    congr 1
    funext version
    rw [filter_append, filter_eq_nil_iff.mpr fun other otherIn => ?_, nil_append,
      filter_cons, filter_nil]
    · rfl
    · intro leads
      have isFollowed : other.followed = true := by
        refine allFollowed other ((engine.versions.perm (byUpstream "0") followed).subset ?_)
        split at otherIn
        · exact mem_of_mem_filter otherIn
        · cases otherIn
      rw [(onLine_of_mayLead leads).2] at isFollowed
      cases isFollowed

/-- A line is led by the version that led it before. -/
theorem withFollowed_templateOf {line : String}
    (allFollowed : ∀ version ∈ followed, version.followed = true) :
    templateOf engine (withFollowed engine game followed).versions line =
      (templateOf engine game.versions line).map (beside followed) := by
  unfold templateOf
  rw [withFollowed_leading allFollowed, engine.versions.blind (beside followed) (byUpstream "")
    _ fun _ _ _ _ => rfl, head?_map]

theorem withFollowed_followTags :
    (withFollowed engine game followed).followTags = game.followTags := by
  unfold withFollowed
  split <;> rfl

theorem withFollowed_base : (withFollowed engine game followed).base = game.base := by
  unfold withFollowed
  split <;> rfl

end With

/-! ### What the followed versions do to a definition -/

/-- The versions that a list of tags adds to a definition. -/
def added (engine : Engine) (game : GameDefinition) (tags : List TagRecord) : List GameVersion :=
  acceptFollowed game (followedVersions engine game tags)

/-- The definition with the versions in that a list of tags adds. -/
def grown (engine : Engine) (game : GameDefinition) (tags : List TagRecord) : GameDefinition :=
  withFollowed engine game (added engine game tags)

/-- Whether a version is the recommended one of a line. -/
def leads (line : String) (version : GameVersion) : Bool :=
  version.onLine == line && version.recommended

/-- What a definition with its followed versions in should be. -/
structure Sound (engine : Engine) (game : GameDefinition) (follow : TagFollow)
    (with_ : GameDefinition) : Prop where
  passes : auditDefinition engine with_ = []
  /-- The versions that were added have their images in the repository. -/
  images : ∀ version ∈ with_.versions, version.id ∉ game.versions.map (·.id) →
    repositoryOf version.image = follow.repository
  /-- The versions that were there are there. -/
  kept : ∀ version ∈ game.versions, ∃ still ∈ with_.versions,
    still.id = version.id ∧ still.image = version.image ∧ still.env = version.env
  /-- No line has a second recommended version. -/
  recommended : ∀ line, game.versions.countP (leads line) ≤ 1 →
    with_.versions.countP (leads line) ≤ 1

/-- No release newer than its line's template has an id that a version used to go by, or that a
followed version of the definition has. -/
def Free (engine : Engine) (game : GameDefinition) (follow : TagFollow) (tags : List TagRecord) :
    Prop :=
  ∀ rule ∈ follow.lines, ∀ template, templateOf engine game.versions rule.line = some template →
    ∀ pattern, tagPattern engine rule = some pattern → ∀ tag ∈ tags, ∀ release,
      readTag pattern tag = some release → isNewer template release = true →
        followedId template release.version ∉ game.versions.flatMap GameVersion.formerIds ∧
          followedId template release.version ∉
            (game.versions.filter fun version => version.followed).map (·.id)

section Sound

variable {tags : List TagRecord} {version : GameVersion}

theorem mem_followedVersions (follows : game.followTags = some follow) :
    version ∈ followedVersions engine game tags ↔
      ∃ rule ∈ follow.lines, version ∈ followedOnLine engine game follow tags rule := by
  unfold followedVersions
  rw [follows]
  exact mem_flatMap

/-- What an added version is, and from where. -/
theorem added_of_mem (follows : game.followTags = some follow)
    (versionIn : version ∈ added engine game tags) :
    ∃ rule ∈ follow.lines, Follows engine game follow tags rule version := by
  unfold added acceptFollowed at versionIn
  rw [follows] at versionIn
  obtain ⟨rule, ruleIn, versionIn⟩ :=
    (mem_followedVersions follows).mp (acceptFrom_sublist.subset versionIn)
  exact ⟨rule, ruleIn, follows_of_mem versionIn⟩

theorem Follows.onLine {rule : TagFollowLine}
    (made : Follows engine game follow tags rule version) : version.onLine = rule.line := by
  obtain ⟨template, pattern, release, index, tag, isTemplate, -, -, -, -, rfl⟩ := made.made
  exact (onLine_of_mayLead (templateOf_mem isTemplate).2).1

theorem Follows.followed {rule : TagFollowLine}
    (made : Follows engine game follow tags rule version) :
    version.followed = true ∧ version.formerIds = [] := by
  obtain ⟨template, pattern, release, index, tag, -, -, -, -, -, rfl⟩ := made.made
  exact ⟨rfl, rfl⟩

theorem Follows.image {rule : TagFollowLine}
    (made : Follows engine game follow tags rule version) :
    ∃ name, isTagName name = true ∧ version.image = follow.repository ++ ":" ++ name := by
  obtain ⟨template, pattern, release, index, tag, -, -, -, isRelease, -, rfl⟩ := made.made
  exact ⟨tag.name, tag.named, by rw [← tag_of_readTag isRelease]; rfl⟩

/-- An added version has none of the ids there are, unless a release has one. -/
theorem Follows.fresh {rule : TagFollowLine} (ruleIn : rule ∈ follow.lines)
    (made : Follows engine game follow tags rule version) (free : Free engine game follow tags) :
    version.id ∉ game.versions.flatMap GameVersion.formerIds ∧
      version.id ∉ game.versions.map (·.id) := by
  have notShipped := made.free
  obtain ⟨template, pattern, release, index, tag, isTemplate, isPattern, tagIn, isRelease, newer,
    rfl⟩ := made.made
  obtain ⟨notFormer, notFollowed⟩ :=
    free rule ruleIn template isTemplate pattern isPattern tag tagIn release isRelease newer
  refine ⟨notFormer, fun among => ?_⟩
  obtain ⟨other, otherIn, sameId⟩ := List.mem_map.mp among
  cases isFollowed : other.followed with
  | true =>
    exact notFollowed (List.mem_map.mpr ⟨other, mem_filter.mpr ⟨otherIn, isFollowed⟩, sameId⟩)
  | false =>
    refine notShipped (List.mem_map.mpr ⟨other, mem_filter.mpr ⟨otherIn, ?_⟩, sameId⟩)
    rw [isFollowed]
    rfl

theorem accepted_of_follows {rule : TagFollowLine} (ruleIn : rule ∈ follow.lines)
    (made : Follows engine game follow tags rule version) :
    Accepted follow (shippedIds game) version where
  followed := made.followed.1
  free := made.free
  line := ⟨rule, ruleIn, made.onLine.symm⟩
  image := by
    obtain ⟨name, named, isImage⟩ := made.image
    rw [isImage, tagOf_image named]
    rfl

/-- Added versions are one for each id. -/
theorem nodup_added :
    ((added engine game tags).map (·.id)).Nodup := by
  unfold added acceptFollowed
  split
  · exact nodup_nil
  · exact nodup_acceptFrom

theorem added_lines (follows : game.followTags = some follow) :
    ∀ version ∈ added engine game tags,
      ∃ rule ∈ follow.lines, rule.line = version.onLine := by
  intro version versionIn
  obtain ⟨rule, ruleIn, made⟩ := added_of_mem follows versionIn
  exact ⟨rule, ruleIn, made.onLine.symm⟩

variable (tags) in
theorem grown_perm (consistent : Consistent engine game follow)
    (follows : game.followTags = some follow) :
    (grown engine game tags).versions.Perm
      (added engine game tags ++ game.versions.map (beside (added engine game tags))) :=
  withFollowed_perm consistent follows (added_lines follows)

variable (tags) in
/-- The ids that are in the definition then. -/
theorem ids_perm (consistent : Consistent engine game follow)
    (follows : game.followTags = some follow) :
    ((grown engine game tags).versions.map (·.id)).Perm
      ((added engine game tags).map (·.id) ++ game.versions.map (·.id)) := by
  have perm := (grown_perm tags consistent follows).map (·.id)
  rw [map_append, List.map_map] at perm
  exact perm

variable (tags) in
theorem formerIds_perm (consistent : Consistent engine game follow)
    (follows : game.followTags = some follow) :
    ((grown engine game tags).versions.flatMap GameVersion.formerIds).Perm
      (game.versions.flatMap GameVersion.formerIds) := by
  have perm := (grown_perm tags consistent follows).flatMap_right GameVersion.formerIds
  rw [flatMap_append, flatMap_map] at perm
  have none : (added engine game tags).flatMap GameVersion.formerIds = [] := by
    rw [flatMap_eq_nil_iff]
    intro version versionIn
    obtain ⟨rule, -, made⟩ := added_of_mem follows versionIn
    exact made.followed.2
  rw [none] at perm
  exact perm

theorem lines_grown (consistent : Consistent engine game follow)
    (follows : game.followTags = some follow)
    (versionIn : version ∈ (grown engine game tags).versions) :
    ∃ other ∈ game.versions, other.line.getD "" = version.line.getD "" := by
  obtain new | old := mem_append.mp ((grown_perm tags consistent follows).subset versionIn)
  · obtain ⟨rule, ruleIn, sameLine⟩ := added_lines follows version new
    obtain ⟨template, isTemplate, -⟩ := (consistent.rules rule ruleIn).template
    obtain ⟨templateIn, leads⟩ := templateOf_mem isTemplate
    exact ⟨template, templateIn, (onLine_of_mayLead leads).1.trans sameLine⟩
  · obtain ⟨other, otherIn, rfl⟩ := List.mem_map.mp old
    exact ⟨other, otherIn, rfl⟩

theorem consistent_grown (consistent : Consistent engine game follow)
    (follows : game.followTags = some follow) (free : Free engine game follow tags) :
    Consistent engine (grown engine game tags) follow where
  ids := by
    refine (ids_perm tags consistent follows).nodup_iff.mpr
      (nodup_append'.mpr ⟨nodup_added, consistent.ids, fun id idIn among => ?_⟩)
    obtain ⟨version, versionIn, rfl⟩ := List.mem_map.mp idIn
    obtain ⟨rule, ruleIn, made⟩ := added_of_mem follows versionIn
    exact (made.fresh ruleIn free).2 among
  formerIds := (formerIds_perm tags consistent follows).nodup_iff.mpr consistent.formerIds
  apart := by
    intro id idIn among
    have former := (formerIds_perm tags consistent follows).subset idIn
    obtain new | old := mem_append.mp ((ids_perm tags consistent follows).subset among)
    · obtain ⟨version, versionIn, rfl⟩ := List.mem_map.mp new
      obtain ⟨rule, ruleIn, made⟩ := added_of_mem follows versionIn
      exact (made.fresh ruleIn free).1 former
    · exact consistent.apart id former old
  some_ := by
    intro none
    have perm := grown_perm tags consistent follows
    rw [none] at perm
    have none := append_eq_nil_iff.mp perm.nil_eq.symm
    exact consistent.some_ (map_eq_nil_iff.mp none.2)
  repository := consistent.repository
  lines := consistent.lines
  once := consistent.once
  rules := by
    intro rule ruleIn
    obtain ⟨⟨template, isTemplate, same⟩, pattern, group⟩ := consistent.rules rule ruleIn
    have allFollowed : ∀ version ∈ added engine game tags, version.followed = true := by
      intro version versionIn
      obtain ⟨rule, -, made⟩ := added_of_mem follows versionIn
      exact made.followed.1
    refine ⟨⟨beside (added engine game tags) template, ?_, same⟩, pattern, group⟩
    unfold grown
    rw [withFollowed_templateOf allFollowed, isTemplate]
    rfl
  settings := by
    unfold GameDefinition.whole grown
    rw [withFollowed_base]
    refine @auditDefinition_of_lines _ game.whole _ ?_ ?_ consistent.settings
    · intro version versionIn
      obtain ⟨full, fullIn, rfl⟩ := List.mem_map.mp versionIn
      obtain ⟨other, otherIn, same⟩ := lines_grown consistent follows fullIn
      exact ⟨_, List.mem_map_of_mem otherIn, same⟩
    · intro version versionIn
      obtain ⟨full, fullIn, rfl⟩ := List.mem_map.mp versionIn
      have still := (grown_perm tags consistent follows).symm.subset
        (mem_append_right _ (List.mem_map_of_mem fullIn))
      exact ⟨_, List.mem_map_of_mem still, rfl⟩

/-- No id of a release is in the way when the definition passes. -/
theorem free_of_consistent (consistent : Consistent engine game follow)
    (follows : game.followTags = some follow)
    (after : Consistent engine (grown engine game tags) follow) :
    Free engine game follow tags := by
  intro rule ruleIn template isTemplate pattern isPattern tag tagIn release isRelease newer
  by_cases shipped : followedId template release.version ∈ shippedIds game
  · obtain ⟨other, otherIn, sameId⟩ := List.mem_map.mp shipped
    obtain ⟨otherIn, notFollowed⟩ := mem_filter.mp otherIn
    have there : followedId template release.version ∈ game.versions.map (·.id) :=
      List.mem_map.mpr ⟨other, otherIn, sameId⟩
    refine ⟨fun former => consistent.apart _ former there, fun followedOne => ?_⟩
    obtain ⟨second, secondIn, sameSecond⟩ := List.mem_map.mp followedOne
    obtain ⟨secondIn, isFollowed⟩ := mem_filter.mp secondIn
    obtain rfl := inj_on_of_nodup_map consistent.ids otherIn secondIn
      (sameId.trans sameSecond.symm)
    rw [isFollowed] at notFollowed
    cases notFollowed
  · have isAdded : followedId template release.version ∈ (added engine game tags).map (·.id) := by
      have made := id_of_release (consistent.rules rule ruleIn) isTemplate isPattern tagIn
        isRelease newer shipped
      obtain ⟨version, versionIn, sameId⟩ := List.mem_map.mp made
      unfold added acceptFollowed
      rw [follows, ← sameId]
      refine (id_mem_acceptFrom ((mem_followedVersions follows).mpr ⟨rule, ruleIn, versionIn⟩)
        (accepted_of_follows ruleIn (follows_of_mem versionIn))).resolve_left not_mem_nil
    have distinct :=
      nodup_append'.mp ((ids_perm tags consistent follows).nodup_iff.mp after.ids)
    refine ⟨fun former => ?_, fun followedOne => ?_⟩
    · exact after.apart _ ((formerIds_perm tags consistent follows).symm.subset former)
        ((ids_perm tags consistent follows).symm.subset (mem_append_left _ isAdded))
    · obtain ⟨other, otherIn, sameId⟩ := List.mem_map.mp followedOne
      exact distinct.2.2 isAdded
        (List.mem_map.mpr ⟨other, mem_of_mem_filter otherIn, sameId⟩)

theorem countP_flatMap {line : String} {rules : List TagFollowLine}
    (once : (rules.map (·.line)).Nodup) :
    ((rules.flatMap (followedOnLine engine game follow tags)).countP (leads line)) ≤ 1 := by
  have elsewhere {rule : TagFollowLine} (other : rule.line ≠ line) :
      (followedOnLine engine game follow tags rule).countP (leads line) = 0 := by
    rw [countP_eq_zero]
    intro version versionIn here
    have sameLine := beq_iff_eq.mp (Bool.and_eq_true_iff.mp here).1
    exact other ((follows_of_mem versionIn).onLine.symm.trans sameLine)
  induction rules with
  | nil => exact Nat.zero_le 1
  | cons rule rules inductionHypothesis =>
    obtain ⟨new, once⟩ := nodup_cons.mp once
    rw [flatMap_cons, countP_append]
    by_cases here : rule.line = line
    · have none :
          (rules.flatMap (followedOnLine engine game follow tags)).countP (leads line) = 0 := by
        rw [List.countP_flatMap, sum_eq_zero]
        intro count countIn
        obtain ⟨other, otherIn, rfl⟩ := List.mem_map.mp countIn
        exact elsewhere fun sameLine =>
          new (List.mem_map.mpr ⟨other, otherIn, sameLine.trans here.symm⟩)
      rw [none, Nat.add_zero]
      exact le_trans (countP_mono_left fun version _ both => (Bool.and_eq_true_iff.mp both).2)
        countP_followedOnLine
    · rw [elsewhere here, Nat.zero_add]
      exact inductionHypothesis once

/-- At most one version that is added to a line is recommended. -/
theorem countP_added (consistent : Consistent engine game follow)
    (follows : game.followTags = some follow) {line : String} :
    (added engine game tags).countP (leads line) ≤ 1 := by
  have fewer : (added engine game tags).Sublist
      (follow.lines.flatMap (followedOnLine engine game follow tags)) := by
    unfold added acceptFollowed followedVersions
    rw [follows]
    exact acceptFrom_sublist
  exact le_trans fewer.countP_le (countP_flatMap consistent.once)

theorem leads_beside {line : String} {followed : List GameVersion}
    (isLeader : leads line (beside followed version) = true) :
    leads line version = true ∧ line ∉ recommendedLines followed := by
  obtain ⟨onLine, recommended⟩ := Bool.and_eq_true_iff.mp isLeader
  obtain ⟨recommended, notListed⟩ := Bool.and_eq_true_iff.mp recommended
  have sameLine : version.onLine = line := beq_iff_eq.mp onLine
  refine ⟨Bool.and_eq_true_iff.mpr ⟨onLine, recommended⟩, ?_⟩
  rw [← sameLine]
  intro listed
  rw [contains_iff_mem.mpr listed] at notListed
  cases notListed

/-- A line has no second recommended version then. -/
theorem countP_grown (consistent : Consistent engine game follow)
    (follows : game.followTags = some follow) {line : String}
    (before : game.versions.countP (leads line) ≤ 1) :
    (grown engine game tags).versions.countP (leads line) ≤ 1 := by
  rw [(grown_perm tags consistent follows).countP_eq, countP_append, countP_map]
  by_cases listed : line ∈ recommendedLines (added engine game tags)
  · have none : game.versions.countP (leads line ∘ beside (added engine game tags)) = 0 :=
      countP_eq_zero.mpr fun version _ isLeader => (leads_beside isLeader).2 listed
    rw [none]
    exact countP_added consistent follows
  · have none : (added engine game tags).countP (leads line) = 0 := by
      refine countP_eq_zero.mpr fun version versionIn isLeader => listed ?_
      obtain ⟨onLine, recommended⟩ := Bool.and_eq_true_iff.mp isLeader
      exact List.mem_map.mpr ⟨version, mem_filter.mpr ⟨versionIn, recommended⟩,
        beq_iff_eq.mp onLine⟩
    rw [none, Nat.zero_add]
    exact le_trans (countP_mono_left fun version _ isLeader => (leads_beside isLeader).1)
      before

theorem image_of_added (consistent : Consistent engine game follow)
    (follows : game.followTags = some follow)
    (versionIn : version ∈ added engine game tags) :
    repositoryOf version.image = follow.repository := by
  obtain ⟨rule, -, made⟩ := added_of_mem follows versionIn
  obtain ⟨name, named, isImage⟩ := made.image
  rw [isImage]
  exact repositoryOf_image consistent.repository named

end Sound

/-- A definition that passes its audit is what it should be with its followed versions in exactly
when no release has an id that is not its own. -/
theorem sound_iff (engine : Engine) (game : GameDefinition) (follow : TagFollow)
    (tags : List TagRecord) (follows : game.followTags = some follow)
    (passes : auditDefinition engine game = []) :
    Sound engine game follow
        (withFollowed engine game (acceptFollowed game (followedVersions engine game tags))) ↔
      Free engine game follow tags := by
  have consistent := (auditDefinition_eq_nil follows).mp passes
  have stillFollows : (grown engine game tags).followTags = some follow :=
    withFollowed_followTags.trans follows
  constructor
  · intro sound
    exact free_of_consistent consistent follows
      ((auditDefinition_eq_nil stillFollows).mp sound.passes)
  · intro free
    refine ⟨(auditDefinition_eq_nil stillFollows).mpr (consistent_grown consistent follows free),
      fun version versionIn new => ?_, fun version versionIn => ?_,
      fun line before => countP_grown consistent follows before⟩
    · obtain isAdded | old :=
        mem_append.mp ((grown_perm tags consistent follows).subset versionIn)
      · exact image_of_added consistent follows isAdded
      · obtain ⟨other, otherIn, rfl⟩ := List.mem_map.mp old
        exact absurd (List.mem_map_of_mem otherIn) new
    · refine ⟨beside (added engine game tags) version, ?_, rfl, rfl, rfl⟩
      exact (grown_perm tags consistent follows).symm.subset
        (mem_append_right _ (List.mem_map_of_mem versionIn))

/-! ### A game whose tags are followed -/

/-- What `(?<version>\d+\.\d+)-release` matches in a tag. -/
def releaseGroups (name : String) : Option TagGroups :=
  let version := name.toList.takeWhile (· != '-')
  if isVersionString (String.ofList version) && (version.splitOn '.').length == 2 &&
      name.toList.drop version.length == "-release".toList then
    some { version := some (String.ofList version), rebuild := none }
  else none

/-- The engine, as far as that pattern goes. -/
def releaseEngine : Engine where
  language := ascii
  compile source :=
    if source = "^(?:(?<version>\\d+\\.\\d+)-release)$" then some releaseGroups else none
  versions := BlindSort.insertion
  releases := ArraySort.insertion

def releaseTags : List TagRecord :=
  [{ name := "42.21-release", pushedAt := none, named := by decide },
    { name := "latest", pushedAt := none, named := by decide },
    { name := "42.19-release", pushedAt := none, named := by decide }]

def releaseFollow : TagFollow where
  repository := "games/zomboid"
  lines := [{ line := "", tag := "(?<version>\\d+\\.\\d+)-release" }]

def buildVersion : GameVersion where
  id := "b42"
  label := "Build 42"
  upstream := some "42.20"
  image := "games/zomboid:42.20-release"
  recommended := true

/-- A game of one version that follows its image's tags. -/
def buildGame : GameDefinition where
  base := { id := "zomboid", name := "Zomboid", config := [] }
  versions := [buildVersion]
  followTags := some releaseFollow

theorem sound_iff_build :
    Sound releaseEngine buildGame releaseFollow (withFollowed releaseEngine buildGame
        (acceptFollowed buildGame (followedVersions releaseEngine buildGame releaseTags))) ↔
      Free releaseEngine buildGame releaseFollow releaseTags :=
  sound_iff releaseEngine buildGame releaseFollow releaseTags rfl (by decide +kernel)

/-- A version that is known and not installed, and used to follow a tag. -/
def withdrawnVersion : GameVersion where
  id := "b42-21"
  label := "Build 42.21"
  upstream := some "42.21"
  image := "games/zomboid:42.21-release"
  supported := false
  formerIds := ["b42-42-21"]

def withdrawnGame : GameDefinition where
  base := buildGame.base
  versions := [withdrawnVersion, buildVersion]
  followTags := some releaseFollow

theorem unsound_withdrawn :
    ¬ ∀ engine game follow tags, game.followTags = some follow →
      auditDefinition engine game = [] → Sound engine game follow
        (withFollowed engine game (acceptFollowed game (followedVersions engine game tags))) := by
  intro claimed
  have sound :=
    claimed releaseEngine withdrawnGame releaseFollow releaseTags rfl (by decide +kernel)
  exact absurd sound.passes (by decide +kernel)

end Geeboard.Games.Follow
